/-
A store of values under text keys, and the keys of one user in it.
-/
import Siteswap.Entries

namespace Siteswap

/-- Values under their keys. -/
structure Store (β : Type) where
  entries : Entries String β
  deriving DecidableEq

namespace Store

variable {β : Type}

def empty : Store β := ⟨[]⟩

variable (s : Store β)

def get? (key : String) : Option β :=
  s.entries.get? key

def set (key : String) (value : β) : Store β :=
  ⟨s.entries.put key value⟩

def delete (key : String) : Store β :=
  ⟨s.entries.erase key⟩

/-- All keys, in order of code points. -/
def keys : List String :=
  (s.entries.map (·.1)).mergeSort fun a b => a ≤ b

/-- A user without a name. -/
inductive Error where
  | noUser
  deriving DecidableEq

def Error.message : Error → String
  | noUser => "user_id must be a non-empty string"

/-- The key of a user's own. -/
def userKey (user key : String) : Except Error String :=
  if user = "" then .error .noUser else .ok (user ++ ":" ++ key)

end Store

end Siteswap
