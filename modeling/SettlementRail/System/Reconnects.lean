import Mathlib.Algebra.Order.BigOperators.Group.List
import Mathlib.Algebra.Order.Ring.Nat
import SettlementRail.Foundation.Quiescence
import SettlementRail.Foundation.ThreadPool
import SettlementRail.Model.ChainConnection

/-! The WSS connection is given up by nobody and opened by one chain of reconnects only: a socket
that is not closed, a timer, or a reconnect that tears the dead socket down. -/

namespace Rail.Wss
open Foundation

def Socket.live (s : Socket) : ℕ := if s.status = .closed then 0 else 1

def ReconnectPc.connects (pc : ReconnectPc) : ℕ := if pc = .closeWss then 1 else 0

def State.live (σ : State) : ℕ := (σ.sockets.map Socket.live).sum

def State.connects (σ : State) : ℕ := (σ.reconnects.map ReconnectPc.connects).sum

/-- Everything that is a connection or is going to be one. -/
def State.chains (σ : State) : ℕ := σ.live + σ.timers + σ.connects

structure Inv (σ : State) : Prop where
  unborn : σ.sockets = [] → σ.chains = 0 ∧ σ.registered = false
  older : ∀ s ∈ σ.sockets.tail, s.status = .closed
  one : σ.chains ≤ 1
  kept : σ.sockets ≠ [] → σ.shuttingDown = false → σ.chains = 1
  subscribed : σ.registered = true → σ.shuttingDown = false →
    ∀ s ∈ σ.sockets, s.status ≠ .closed → s.subscribed = true
  delays : σ.delays = (List.range σ.reconnectAttempts).map fun k => min (1000 * 2 ^ k) 30000

variable {σ σ' ρ : State} {ev : Event} {i : ℕ} {s : Socket} {sockets : List Socket}

theorem live_modifyHead {f : Socket → Socket} (hf : ∀ s, (f s).status = s.status) :
    ((sockets.modifyHead f).map Socket.live).sum = (sockets.map Socket.live).sum := by
  cases sockets with
  | nil => rfl
  | cons s rest =>
    show Socket.live (f s) + _ = Socket.live s + _
    rw [Socket.live, Socket.live, hf]

theorem modifyHead_eq_nil {f : Socket → Socket} : sockets.modifyHead f = [] ↔ sockets = [] := by
  cases sockets <;> simp

theorem live_closed (h : s.status = .closed) : s.live = 0 := if_pos h

theorem live_of_ne (h : s.status ≠ .closed) : s.live = 1 := if_neg h

theorem closed_of_live_zero (h : (sockets.map Socket.live).sum = 0) (hs : s ∈ sockets) :
    s.status = .closed := by
  by_contra hne
  have hle := List.le_sum_of_mem (List.mem_map_of_mem (f := Socket.live) hs)
  rw [live_of_ne hne, h] at hle
  omega

theorem live_set {t : Socket} (hs : σ.sockets[i]? = some s) :
    ((σ.sockets.set i t).map Socket.live).sum + s.live = σ.live + t.live :=
  sum_set Socket.live hs

theorem connects_set {pc : ReconnectPc} (pc' : ReconnectPc) (hpc : σ.reconnects[i]? = some pc) :
    ((σ.reconnects.set i pc').map ReconnectPc.connects).sum + pc.connects =
      σ.connects + pc'.connects :=
  sum_set ReconnectPc.connects hpc

theorem delays_snoc (n : ℕ) :
    (List.range (n + 1)).map (fun k => min (1000 * 2 ^ k) 30000) =
      (List.range n).map (fun k => min (1000 * 2 ^ k) 30000) ++ [reconnectDelay (n + 1)] := by
  rw [List.range_succ, List.map_append]
  rfl

theorem Inv.older_set (hI : Inv σ) (hs : σ.sockets[i]? = some s) (hopen : s.status ≠ .closed)
    (t : Socket) : ∀ r ∈ (σ.sockets.set i t).tail, r.status = .closed := by
  rcases hsockets : σ.sockets with _ | ⟨s₀, rest⟩
  · exact fun r hr => (List.not_mem_nil hr).elim
  · have hold := hI.older
    rw [hsockets] at hs hold
    cases i with
    | zero => exact hold
    | succ i =>
      rw [List.getElem?_cons_succ] at hs
      exact absurd (hold s (List.mem_of_getElem? hs)) hopen

theorem older_modifyHead {f : Socket → Socket} (h : ∀ s ∈ sockets.tail, s.status = .closed) :
    ∀ s ∈ (sockets.modifyHead f).tail, s.status = .closed := by
  cases sockets with
  | nil => exact h
  | cons s rest => exact h

theorem inv_opens (hI : Inv σ) (hs : σ.sockets[i]? = some s) (hstatus : s.status = .connecting) :
    Inv { σ with
      sockets := σ.sockets.set i { s with status := .opened }
      reconnectAttempts := 0, delays := [] } := by
  have hlive := live_set (t := { s with status := .opened }) hs
  have hsame : Socket.live { s with status := .opened } = s.live := by
    rw [live_of_ne (by simp), live_of_ne (by rw [hstatus]; simp)]
  have hchains : State.chains { σ with
      sockets := σ.sockets.set i { s with status := .opened }
      reconnectAttempts := 0, delays := [] } = σ.chains := by
    unfold State.chains State.live State.connects at *
    simp only at *
    omega
  refine ⟨fun hnil => ?_, hI.older_set hs (by rw [hstatus]; simp) _,
    by rw [hchains]; exact hI.one, fun hne hup => ?_, ?_, rfl⟩
  · rw [List.set_eq_nil_iff] at hnil
    rw [hchains]
    exact hI.unborn hnil
  · rw [hchains]
    exact hI.kept (fun hnil => hne ((List.set_eq_nil_iff _ _).mpr hnil)) hup
  · intro hreg hup t ht hopen
    rcases List.mem_or_eq_of_mem_set ht with hold | rfl
    · exact hI.subscribed hreg hup t hold hopen
    · exact hI.subscribed hreg hup s (List.mem_of_getElem? hs) (by rw [hstatus]; simp)

theorem inv_closes (hI : Inv σ) (hs : σ.sockets[i]? = some s) (hstatus : s.status ≠ .closed) :
    Inv (if σ.shuttingDown then { σ with sockets := σ.sockets.set i { s with status := .closed } }
      else State.scheduleReconnect
        { σ with sockets := σ.sockets.set i { s with status := .closed } }) := by
  have hlive := live_set (t := { s with status := .closed }) hs
  rw [live_of_ne hstatus, live_closed rfl] at hlive
  have hone := hI.one
  have hsubscribed : σ.registered = true → σ.shuttingDown = false →
      ∀ t ∈ σ.sockets.set i { s with status := .closed }, t.status ≠ .closed →
        t.subscribed = true := by
    intro hreg hup t ht hopen
    rcases List.mem_or_eq_of_mem_set ht with hold | rfl
    · exact hI.subscribed hreg hup t hold hopen
    · exact absurd rfl hopen
  have hborn : σ.sockets.set i { s with status := .closed } ≠ [] := fun hnil => by
    rw [(List.set_eq_nil_iff _ _).mp hnil] at hs
    cases hs
  split_ifs with hdown
  · refine ⟨fun hnil => absurd hnil hborn, hI.older_set hs hstatus _, ?_, fun _ hup => ?_,
      hsubscribed, hI.delays⟩
    · unfold State.chains State.live State.connects at *
      simp only at *
      omega
    · rw [hdown] at hup
      cases hup
  · have hchains : (State.scheduleReconnect
        { σ with sockets := σ.sockets.set i { s with status := .closed } }).chains = σ.chains := by
      unfold State.chains State.scheduleReconnect State.live State.connects at *
      simp only at *
      omega
    -- the socket is gone, and its timer is there
    refine ⟨fun hnil => absurd hnil hborn, hI.older_set hs hstatus _,
      by rw [hchains]; exact hone, fun _ hup => ?_, hsubscribed, ?_⟩
    · rw [hchains]
      exact hI.kept (fun hnil => hborn ((List.set_eq_nil_iff _ _).mpr hnil)) hup
    · show σ.delays ++ [reconnectDelay (σ.reconnectAttempts + 1)] = _
      rw [hI.delays]
      exact (delays_snoc σ.reconnectAttempts).symm

theorem inv_timer {timers : ℕ} (hI : Inv σ) (htimers : σ.timers = timers + 1) :
    Inv (if σ.shuttingDown then { σ with timers }
      else { State.closeWss { σ with timers } with reconnects := σ.reconnects ++ [.closeWss] }) := by
  have hone := hI.one
  have hborn : σ.sockets ≠ [] := fun hnil => by
    have hzero := (hI.unborn hnil).1
    unfold State.chains at hzero
    omega
  split_ifs with hdown
  · refine ⟨fun hnil => absurd hnil hborn, hI.older, ?_, fun _ hup => ?_, hI.subscribed,
      hI.delays⟩
    · unfold State.chains State.live State.connects at *
      simp only at *
      omega
    · rw [hdown] at hup
      cases hup
  · -- the timer was the only chain, so no socket is left that could lose its subscription
    have hdead : (σ.sockets.map Socket.live).sum = 0 := by
      unfold State.chains State.live at hone
      omega
    have hchains : State.chains { State.closeWss { σ with timers } with
        reconnects := σ.reconnects ++ [.closeWss] } = σ.chains := by
      have hsame : ((σ.sockets.modifyHead fun s => { s with subscribed := false }).map
          Socket.live).sum = (σ.sockets.map Socket.live).sum := live_modifyHead fun _ => rfl
      unfold State.chains State.live State.connects State.closeWss
      simp only [List.map_append, List.sum_append, hsame, htimers]
      show _ + timers + (_ + (1 + 0)) = _
      omega
    refine ⟨fun hnil => absurd (modifyHead_eq_nil.mp hnil) hborn, older_modifyHead hI.older,
      by rw [hchains]; exact hone, fun _ hup => ?_, fun hreg hup t ht hopen => ?_, hI.delays⟩
    · rw [hchains]
      exact hI.kept hborn hup
    · have hclosed : t.status = .closed :=
        closed_of_live_zero ((live_modifyHead (f := fun s => { s with subscribed := false })
          fun _ => rfl).trans hdead) ht
      exact absurd hclosed hopen

theorem inv_torn (hI : Inv σ) (hpc : σ.reconnects[i]? = some .closeWss) :
    Inv (if σ.registered then
        { σ.connectWss.subscribeTransfers with
          reconnects := σ.reconnects.set i .pollConfirmations }
      else { σ.connectWss with reconnects := σ.reconnects.set i .done }) := by
  have hone := hI.one
  have hconnects : ∀ pc' : ReconnectPc, pc'.connects = 0 →
      ((σ.reconnects.set i pc').map ReconnectPc.connects).sum + 1 = σ.connects := by
    intro pc' hzero
    have hset := connects_set pc' hpc
    rw [hzero] at hset
    exact hset
  -- the reconnect is the only chain, so every socket before it is closed
  have hdead : (σ.sockets.map Socket.live).sum = 0 := by
    have hset := hconnects .done rfl
    unfold State.chains State.live at hone
    omega
  have hborn : σ.sockets ≠ [] := fun hnil => by
    have hzero := (hI.unborn hnil).1
    have hset := hconnects .done rfl
    unfold State.chains at hzero
    omega
  have hold : ∀ s ∈ σ.sockets, s.status = .closed := fun s hs => closed_of_live_zero hdead hs
  split_ifs with hreg
  · have hchains : State.chains { σ.connectWss.subscribeTransfers with
        reconnects := σ.reconnects.set i .pollConfirmations } = σ.chains := by
      have hset := hconnects .pollConfirmations rfl
      unfold State.chains State.live State.connects at *
      show (1 + (σ.sockets.map Socket.live).sum) + σ.timers + _ = _
      simp only at *
      omega
    refine ⟨fun hnil => (by cases hnil), hold, by rw [hchains]; exact hone,
      fun _ hup => by rw [hchains]; exact hI.kept hborn hup, fun _ _ s hs hopen => ?_, hI.delays⟩
    rcases List.mem_cons.mp hs with rfl | hs
    · rfl
    · exact absurd (hold s hs) hopen
  · have hchains : State.chains { σ.connectWss with reconnects := σ.reconnects.set i .done } =
        σ.chains := by
      have hset := hconnects .done rfl
      unfold State.chains State.live State.connects at *
      show (1 + (σ.sockets.map Socket.live).sum) + σ.timers + _ = _
      simp only at *
      omega
    refine ⟨fun hnil => (by cases hnil), hold, by rw [hchains]; exact hone,
      fun _ hup => by rw [hchains]; exact hI.kept hborn hup, fun hr => absurd hr hreg, hI.delays⟩

theorem inv_step (hI : Inv σ) (h : step σ ev = some σ') : Inv σ' := by
  cases ev <;> simp only [step] at h
  case moduleInit =>
    split_ifs at h with hnil
    cases h
    obtain ⟨hzero, hreg⟩ := hI.unborn hnil
    have hchains : σ.connectWss.chains = 1 := by
      unfold State.chains State.live State.connects at *
      show (1 + (σ.sockets.map Socket.live).sum) + σ.timers + (σ.reconnects.map _).sum = 1
      omega
    refine ⟨fun h => (by cases h), fun s hs => ?_, by omega, fun _ _ => hchains, fun hr => ?_,
      hI.delays⟩
    · rw [State.connectWss, hnil] at hs
      cases hs
    · rw [State.connectWss, hreg] at hr
      cases hr
  case bootstrap =>
    split_ifs at h with hborn
    cases h
    have hchains : State.chains { σ.subscribeTransfers with registered := true } = σ.chains := by
      unfold State.chains State.live State.subscribeTransfers
      simp only [live_modifyHead (f := fun s => { s with subscribed := true }) fun _ => rfl]
      rfl
    refine ⟨fun hnil => absurd (modifyHead_eq_nil.mp hnil) hborn.1, older_modifyHead hI.older,
      by rw [hchains]; exact hI.one, fun _ hup => by rw [hchains]; exact hI.kept hborn.1 hup,
      fun _ hup s hs hopen => ?_, hI.delays⟩
    -- only the newest socket can be open, and it is the one that is subscribed
    obtain ⟨s₀, rest, hsockets⟩ := List.exists_cons_of_ne_nil hborn.1
    have hold := hI.older
    rw [hsockets] at hold
    simp only [State.subscribeTransfers, hsockets, List.modifyHead_cons] at hs
    rcases List.mem_cons.mp hs with rfl | hs
    · rfl
    · exact absurd (hold s hs) hopen
  case opens i =>
    split at h
    · split_ifs at h with hstatus
      cases h
      exact inv_opens hI ‹_› hstatus
    · cases h
  case closes i =>
    split at h
    · split_ifs at h with hstatus hdown <;> cases h
      · have hclosed := inv_closes hI ‹_› hstatus
        rwa [if_pos hdown] at hclosed
      · have hclosed := inv_closes hI ‹_› hstatus
        rwa [if_neg hdown] at hclosed
    · cases h
  case timer =>
    split at h
    · cases h
    · cases h
      exact inv_timer hI ‹_›
  case torn i =>
    split_ifs at h with hpc hreg <;> cases h
    · have htorn := inv_torn hI hpc
      rwa [if_pos hreg] at htorn
    · have htorn := inv_torn hI hpc
      rwa [if_neg hreg] at htorn
  case polled i =>
    split_ifs at h with hpc
    cases h
    have hset := connects_set .done hpc
    have hchains : State.chains { σ with reconnects := σ.reconnects.set i .done } = σ.chains := by
      unfold State.chains State.live State.connects at *
      exact congrArg _ hset
    exact ⟨fun hnil => by rw [hchains]; exact hI.unborn hnil, hI.older,
      by rw [hchains]; exact hI.one,
      fun hne hup => by rw [hchains]; exact hI.kept hne hup, hI.subscribed, hI.delays⟩
  case moduleDestroy =>
    cases h
    have hchains : State.chains { σ.closeWss with shuttingDown := true } = σ.chains := by
      unfold State.chains State.live State.closeWss
      simp only [live_modifyHead (f := fun s => { s with subscribed := false }) fun _ => rfl]
      rfl
    refine ⟨fun hnil => ?_, older_modifyHead hI.older, by rw [hchains]; exact hI.one,
      fun _ hup => (by cases hup),
      fun _ hup => (by cases hup), hI.delays⟩
    rw [hchains]
    exact hI.unborn (modifyHead_eq_nil.mp hnil)

theorem inv_reach (h : Reach step {} σ) : Inv σ := by
  refine h.invariant ⟨fun _ => ⟨rfl, rfl⟩, fun s hs => (by cases hs), Nat.zero_le _,
    fun hne => absurd rfl hne, fun hreg => (by cases hreg), rfl⟩ fun _ _ _ _ hI _ hs => inv_step hI hs

/-- What a state after `moduleDestroy` may still lead to: no timer, and a socket for each
reconnect that was tearing the old one down. -/
structure Ends (σ ρ : State) : Prop where
  down : ρ.shuttingDown = true
  born : ρ.sockets ≠ []
  timers : ρ.timers ≤ σ.timers
  sockets : ρ.sockets.length + ρ.connects ≤ σ.sockets.length + σ.connects

theorem length_modifyHead {f : Socket → Socket} :
    (sockets.modifyHead f).length = sockets.length := by
  cases sockets <;> rfl

theorem ends_step (hI : Ends σ ρ) (h : step ρ ev = some σ') : Ends σ σ' := by
  obtain ⟨hdown, hborn, htimers, hsockets⟩ := hI
  cases ev <;> simp only [step] at h
  case moduleInit =>
    rw [if_neg hborn] at h
    cases h
  case bootstrap =>
    split_ifs at h
    cases h
    exact ⟨hdown, fun hnil => hborn (modifyHead_eq_nil.mp hnil), htimers,
      by rw [State.subscribeTransfers, length_modifyHead]; exact hsockets⟩
  case opens i =>
    split at h
    · split_ifs at h
      cases h
      exact ⟨hdown, fun hnil => hborn ((List.set_eq_nil_iff _ _).mp hnil), htimers,
        by rw [List.length_set]; exact hsockets⟩
    · cases h
  case closes i =>
    split at h
    · rw [if_pos hdown] at h
      split_ifs at h
      cases h
      exact ⟨hdown, fun hnil => hborn ((List.set_eq_nil_iff _ _).mp hnil), htimers,
        by rw [List.length_set]; exact hsockets⟩
    · cases h
  case timer =>
    split at h
    · cases h
    · rename_i timers heq
      rw [if_pos hdown] at h
      cases h
      exact ⟨hdown, hborn, by rw [heq] at htimers; exact Nat.le_of_succ_le htimers, hsockets⟩
  case torn i =>
    -- the socket that is opened replaces the reconnect that opens it
    have hopened : ∀ {pc : ReconnectPc}, ρ.reconnects[i]? = some .closeWss → pc.connects = 0 →
        ρ.sockets.length + 1 + ((ρ.reconnects.set i pc).map ReconnectPc.connects).sum ≤
          σ.sockets.length + σ.connects := by
      intro pc hpc hzero
      have hset := connects_set pc hpc
      have hone : ReconnectPc.closeWss.connects = 1 := rfl
      omega
    split_ifs at h with hpc hreg <;> cases h
    · exact ⟨hdown, fun hnil => (by cases hnil), htimers, hopened hpc rfl⟩
    · exact ⟨hdown, fun hnil => (by cases hnil), htimers, hopened hpc rfl⟩
  case polled i =>
    split_ifs at h with hpc
    cases h
    have hset := connects_set .done hpc
    have hsame : ReconnectPc.pollConfirmations.connects = ReconnectPc.done.connects := rfl
    exact ⟨hdown, hborn, htimers, by unfold State.connects at *; simp only at *; omega⟩
  case moduleDestroy =>
    cases h
    exact ⟨rfl, fun hnil => hborn (modifyHead_eq_nil.mp hnil), htimers,
      by rw [State.closeWss, length_modifyHead]; exact hsockets⟩

/-- Until the shutdown there is at every moment exactly one thing that is a connection or will
become one, and a connection that is alive has the listener on it once the listener has started.
The delays double up to 30 seconds and start over when a socket opens. After the shutdown no timer
is set, and only a reconnect that was tearing down the old socket still opens another. -/
theorem one_connection_kept (h : Reach step {} σ) (hborn : σ.sockets ≠ []) :
    σ.chains ≤ 1 ∧
      (σ.shuttingDown = false → σ.chains = 1 ∧ (σ.registered = true →
        ∀ s ∈ σ.sockets, s.status ≠ .closed → s.subscribed = true)) ∧
      σ.delays = (List.range σ.reconnectAttempts).map (fun k => min (1000 * 2 ^ k) 30000) ∧
      (σ.shuttingDown = true → ∀ ρ, Reach step σ ρ → ρ.timers ≤ σ.timers ∧
        ρ.sockets.length + ρ.connects ≤ σ.sockets.length + σ.connects) := by
  have hI := inv_reach h
  refine ⟨hI.one, fun hup => ⟨hI.kept hborn hup, fun hreg => hI.subscribed hreg hup⟩, hI.delays,
    fun hdown ρ hρ => ?_⟩
  have hends : Ends σ ρ := hρ.invariant (I := Ends σ) ⟨hdown, hborn, le_rfl, le_rfl⟩
    fun _ _ _ _ hI _ hs => ends_step hI hs
  exact ⟨hends.timers, hends.sockets⟩

/-- The connection fails twice before it opens again. -/
def flakyConnection : List Event :=
  [.moduleInit, .bootstrap, .opens 0, .closes 0, .timer, .torn 0, .closes 0, .timer, .torn 1]

theorem flaky_connection_kept : ∃ σ, Reach step {} σ ∧ σ.delays = [1000, 2000] ∧
    σ.sockets.length = 3 ∧ σ.chains = 1 := by
  obtain ⟨σ, hr, hend⟩ := exists_reach_of_run step {} flakyConnection
    (fun σ => σ.delays = [1000, 2000] ∧ σ.sockets.length = 3 ∧ σ.shuttingDown = false)
    (by decide +kernel)
  obtain ⟨hdelays, hthree, hup⟩ := of_decide_eq_true hend
  have hborn : σ.sockets ≠ [] := fun hnil => by
    rw [hnil] at hthree
    cases hthree
  exact ⟨σ, hr, hdelays, hthree, ((one_connection_kept hr hborn).2.1 hup).1⟩

end Rail.Wss
