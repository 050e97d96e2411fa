/-!
# Nested HMAC

HMAC over any hash of lists. Its hash may be an HMAC again: the keys are then given in a
list, and the last of them stands outermost.
-/
namespace DshClashProxy.Lib.Hmac

variable {α : Type}

/-- The pads of a key, which go in front of the message and of the inner digest. -/
structure Pads (α : Type) where
  ipad : List α
  opad : List α

def hmac (hash : List α → List α) (key : Pads α) (m : List α) : List α :=
  hash (key.opad ++ hash (key.ipad ++ m))

def nested (hash : List α → List α) (keys : List (Pads α)) : List α → List α :=
  keys.foldl hmac hash

theorem nested_append (hash : List α → List α) (keys : List (Pads α)) (key : Pads α)
    (m : List α) : nested hash (keys ++ [key]) m = hmac (nested hash keys) key m := by
  rw [nested, List.foldl_append]
  rfl

/-- What all levels put in front of the message before the innermost digest. -/
def ipads (keys : List (Pads α)) : List α := keys.flatMap Pads.ipad

theorem ipads_append (keys : List (Pads α)) (key : Pads α) :
    ipads (keys ++ [key]) = ipads keys ++ key.ipad := by
  rw [ipads, List.flatMap_append, List.flatMap_singleton]
  rfl

end DshClashProxy.Lib.Hmac
