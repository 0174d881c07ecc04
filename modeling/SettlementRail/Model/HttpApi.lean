import SettlementRail.Model.Submission

/-! The answers of `POST /settlements`: the status the controller picks, and the error body that
`HttpExceptionFilter` makes of whatever was thrown. -/

namespace Rail

/-- The object of an HttpException's response, as far as the filter reads it. -/
structure ExceptionFields where
  error : Option String := none
  message : Option (String ⊕ List String) := none
deriving DecidableEq, Repr

structure HttpException where
  status : ℕ
  name : String
  message : String
  response : String ⊕ ExceptionFields
deriving DecidableEq, Repr

/-- What a handler throws; of anything but an HttpException only the stack is looked at. -/
inductive Thrown
  | http (exception : HttpException)
  | other (stack : String)
deriving DecidableEq, Repr

structure ErrorBody where
  statusCode : ℕ
  error : String
  message : String ⊕ List String
deriving DecidableEq, Repr

def withoutException (name : String) : String :=
  let suffix := "Exception".toList
  if suffix.isSuffixOf name.toList then
    String.ofList (name.toList.take (name.toList.length - suffix.length))
  else name

/-- The body of a server error, whatever the exception said. -/
def serverError (status : ℕ) : ErrorBody :=
  { statusCode := status, error := "Internal Server Error", message := .inl "Internal server error" }

def HttpException.body (exception : HttpException) : ErrorBody :=
  match exception.response with
  | .inl text =>
    { statusCode := exception.status, error := withoutException exception.name, message := .inl text }
  | .inr fields =>
    { statusCode := exception.status
      error := fields.error.getD (withoutException exception.name)
      message := fields.message.getD (.inl exception.message) }

def httpExceptionFilter : Thrown → ErrorBody
  | .http exception =>
    if exception.status ≥ 500 then serverError exception.status else exception.body
  | .other _ => serverError 500

/-- Thrown by the balance check of `create`; `toText` is the `toString` of its decimals. -/
def unprocessableEntityException (toText : ℤ → String) (amount : Amount) (available : ℤ) :
    HttpException :=
  let message := "amount " ++ toText amount ++ " exceeds available balance " ++ toText available
  -- an HttpException takes its own message from the response object
  { status := 422, name := "UnprocessableEntityException", message
    response := .inr { error := some "InsufficientBalance", message := some (.inl message) } }

def CreateError.thrown (toText : ℤ → String) (stack : String) : CreateError → Thrown
  | .insufficientBalance amount available => .http (unprocessableEntityException toText amount available)
  | .database => .other stack

inductive Response
  | settlement (status : ℕ) (id : SettlementId)
  | error (body : ErrorBody)
deriving DecidableEq, Repr

def Response.status : Response → ℕ
  | .settlement status _ => status
  | .error body => body.statusCode

/-- `SettlementsController.create`, once the call of the service has ended. The presenter asks the
chain only about a row in flight, which a row just created is not; `lookup` is the error of these
calls if one fails. -/
def createResponse (toText : ℤ → String) (stack : String) (lookup : Option String) :
    CreatePc → Option Response
  | .returned id true => some (.settlement 201 id)
  | .returned id false =>
    match lookup with
    | none => some (.settlement 200 id)
    | some stack => some (.error (httpExceptionFilter (.other stack)))
  | .threw err => some (.error (httpExceptionFilter (err.thrown toText stack)))
  | _ => none

/-- No server error tells its cause, and client errors keep their message. -/
theorem httpExceptionFilter_sealed (thrown thrown' : Thrown)
    (h : (httpExceptionFilter thrown).statusCode = (httpExceptionFilter thrown').statusCode)
    (hserver : 500 ≤ (httpExceptionFilter thrown).statusCode) :
    httpExceptionFilter thrown = httpExceptionFilter thrown' := by
  have hbody : ∀ t : Thrown, 500 ≤ (httpExceptionFilter t).statusCode →
      httpExceptionFilter t = serverError (httpExceptionFilter t).statusCode := by
    intro t ht
    cases t with
    | other stack => rfl
    | http exception =>
      have hstatus : (httpExceptionFilter (.http exception)).statusCode = exception.status := by
        simp only [httpExceptionFilter, HttpException.body]
        split_ifs
        · rfl
        · split <;> rfl
      rw [hstatus] at ht ⊢
      rw [httpExceptionFilter, if_pos ht]
  rw [hbody thrown hserver, hbody thrown' (h ▸ hserver), h]

end Rail
