/-! The status codes shared by every component. Two statuses compare equal when
their codes do; the message is carried along and never compared. -/
namespace UnifiedCache

inductive StatusCode where
  | ok | error | invalidParam | outOfMemory | osApiError | duplicateKey | retry | notFound
  | serializeFailed | deserializeFailed | unsupported | noSpace | timeout | storeUnhealthy
  | timeoutInQueue
  deriving DecidableEq, Repr

structure Status where
  code : StatusCode
  message : String := ""
  deriving DecidableEq, Repr

namespace Status

def OK : Status := ⟨.ok, ""⟩
def Error (message : String) : Status := ⟨.error, message⟩
def InvalidParam (message : String) : Status := ⟨.invalidParam, message⟩
def DuplicateKey : Status := ⟨.duplicateKey, ""⟩
def Retry : Status := ⟨.retry, ""⟩
def NotFound : Status := ⟨.notFound, ""⟩
def DeserializeFailed : Status := ⟨.deserializeFailed, ""⟩
def NoSpace : Status := ⟨.noSpace, ""⟩
def Timeout : Status := ⟨.timeout, ""⟩

def success (s : Status) : Bool := s.code == .ok
def failure (s : Status) : Bool := !s.success

/-- The source's `operator==`. -/
def same (s t : Status) : Bool := s.code == t.code

@[simp] theorem success_OK : OK.success = true := rfl
@[simp] theorem failure_OK : OK.failure = false := rfl
@[simp] theorem success_Timeout : Timeout.success = false := rfl
@[simp] theorem success_NoSpace : NoSpace.success = false := rfl

theorem success_eq_false {s : Status} : s.success = false ↔ s.failure = true := by
  simp [failure]

end Status

/-- `Expected<T>`: a value or the status that explains its absence. -/
abbrev Expected (α : Type u) := Except Status α

end UnifiedCache
