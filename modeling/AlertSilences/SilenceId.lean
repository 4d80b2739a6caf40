import AlertSilences.Decimal

/-! Ids of silences. Zero stands for an id that is not yet assigned. -/

namespace AlertSilences

structure SilenceId where
  value : UInt64
deriving DecidableEq, Inhabited

namespace SilenceId

instance : Ord SilenceId := ⟨fun a b => compare a.value b.value⟩

instance : Std.TransOrd SilenceId where
  eq_swap {a b} := @Std.OrientedCmp.eq_swap UInt64 compare _ a.value b.value
  isLE_trans {a b c} := @Std.TransCmp.isLE_trans UInt64 compare _ a.value b.value c.value

instance : Std.LawfulEqOrd SilenceId where
  compare_self {a} := @Std.ReflCmp.compare_self UInt64 compare _ a.value
  eq_of_compare {a b} h := by
    cases a; cases b
    exact congrArg mk (@Std.LawfulEqCmp.eq_of_compare UInt64 compare _ _ _ h)

instance : LT SilenceId := ⟨fun a b => a.value < b.value⟩

instance (a b : SilenceId) : Decidable (a < b) := inferInstanceAs (Decidable (a.value < b.value))

def unset : SilenceId := ⟨0⟩

def isUnset (id : SilenceId) : Bool := id.value == 0

/-- The following id, if the word still has room for it. -/
def next? (id : SilenceId) : Option SilenceId :=
  if id.value.toNat + 1 < UInt64.size then some ⟨id.value + 1⟩ else none

def text (id : SilenceId) : String := toString id.value.toNat

/-- The form that names the type, as shown to developers. -/
def tagged (id : SilenceId) : String := "SilenceId(" ++ id.text ++ ")"

def ofText? (text : String) : Option SilenceId := do
  let n ← Decimal.natural? text
  if n < UInt64.size then some ⟨UInt64.ofNat n⟩ else none

end SilenceId

end AlertSilences
