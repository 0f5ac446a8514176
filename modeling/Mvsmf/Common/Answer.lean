import Mathlib

/-!
# Answers

The status and, for an error, the report `sendErrorResponse` puts in the body: category, return
code, reason, message and details.
-/

namespace Mvsmf

structure Answer where
  status : Nat
  category : Nat
  rc : Nat
  reason : Int
  message : String
  details : List String
  deriving DecidableEq, Repr

namespace Answer

def HTTP_STATUS_BAD_REQUEST : Nat := 400
def HTTP_STATUS_NOT_FOUND : Nat := 404
def HTTP_STATUS_PRECONDITION_FAILED : Nat := 412
def HTTP_STATUS_INTERNAL_SERVER_ERROR : Nat := 500

def CATEGORY_SERVICE : Nat := 6
def RC_ERROR : Nat := 8

def CATEGORY_ENCODING : Nat := 16
def RC_ENCODING : Nat := 121
def REASON_ENCODING : Int := -1037303780

/-- The 2xx answers. -/
def success (a : Answer) : Bool := decide (200 ≤ a.status ∧ a.status < 300)

/-- An answer with no report behind its status. -/
def plain (status : Nat) : Answer := ⟨status, 0, 0, 0, "", []⟩

end Answer

/-! ## `handle_error` of dsapi.c -/

def ERR_INVALID_PARAM : Nat := 1
def ERR_MEMORY : Nat := 2
def ERR_IO : Nat := 3

/-- The error codes are the negatives of these; the reason is the code's amount. -/
def handleError (errorCode : Nat) (message : String) : Answer :=
  ⟨if errorCode = ERR_INVALID_PARAM then Answer.HTTP_STATUS_BAD_REQUEST
    else Answer.HTTP_STATUS_INTERNAL_SERVER_ERROR,
    Answer.CATEGORY_SERVICE, Answer.RC_ERROR, errorCode, message, []⟩

/-- An answer that is not a 2xx, from a check the request did not pass. -/
abbrev Refusal := { a : Answer // a.success = false }

/-- No error of a handler is a success. -/
theorem handleError_success (errorCode : Nat) (message : String) :
    (handleError errorCode message).success = false := by
  unfold handleError Answer.success
  split <;> rfl

/-- `send_bad_encoding`: at most 64 characters of the value are quoted. -/
def sendBadEncoding (value : Option (List Char)) : Answer :=
  ⟨Answer.HTTP_STATUS_INTERNAL_SERVER_ERROR, Answer.CATEGORY_ENCODING, Answer.RC_ENCODING,
    Answer.REASON_ENCODING, "iconv_open() failed.",
    ["Unsupported encoding in X-IBM-Data-Type '" ++ String.ofList ((value.getD []).take 64) ++
      "': IBM-037 and IBM-1047 are supported."]⟩

end Mvsmf
