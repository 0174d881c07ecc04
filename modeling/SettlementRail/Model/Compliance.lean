import SettlementRail.Model.Submission

/-! `ComplianceService`, and the address check of a request. Both rest on `getAddress` of ethers,
a parameter here: the canonical text of an address, `none` where it throws. -/

namespace Rail

variable (getAddress : Address → Option Address)

/-- The literals of the service, as they stand in it. -/
def blocklistLiterals : List Address :=
  ["0x000000000000000000000000000000000000dead", "0x0000000000000000000000000000000000000bad"]

def blocklist : List Address := blocklistLiterals.filterMap getAddress

namespace ComplianceService

def check (toAddress : Address) : ComplianceResult :=
  match getAddress toAddress with
  | none => { approved := false, reason := some "INVALID_ADDRESS" }
  | some normalized =>
    if (blocklist getAddress).contains normalized then
      { approved := false, reason := some "ADDRESS_BLOCKLISTED" }
    else { approved := true }

end ComplianceService

/-- `validate` of `IsChecksummedAddress`: the text is its own canonical form. -/
def isChecksummedAddress (value : Address) : Bool := getAddress value = some value

def SameAddress (a b : Address) : Prop := ∃ c, getAddress a = some c ∧ getAddress b = some c

variable {getAddress} {a b : Address}

theorem ComplianceService.check_approved_iff :
    (check getAddress a).approved = true ↔
      (∃ c, getAddress a = some c) ∧ ∀ b ∈ blocklistLiterals, ¬SameAddress getAddress a b := by
  unfold check
  rcases ha : getAddress a with _ | c
  · simp
  · by_cases hblocked : (blocklist getAddress).contains c = true
    · simp only [hblocked, if_true, Bool.false_eq_true, false_iff, not_and, not_forall, not_not]
      rw [List.contains_iff_mem, blocklist, List.mem_filterMap] at hblocked
      obtain ⟨b, hb, hbc⟩ := hblocked
      exact fun _ => ⟨b, hb, c, ha, hbc⟩
    · simp only [hblocked, if_false, true_iff, Bool.false_eq_true]
      refine ⟨⟨c, rfl⟩, fun b hb ⟨d, had, hbd⟩ => hblocked ?_⟩
      obtain rfl : c = d := Option.some.inj (ha.symm.trans had)
      rw [List.contains_iff_mem, blocklist, List.mem_filterMap]
      exact ⟨b, hb, hbd⟩

end Rail
