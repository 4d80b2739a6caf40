/-! Channels: what is sent first is received first. What was sent last is kept newest
first, and turned over once everything before it has been received. -/

namespace AlertSilences

structure Channel (α : Type) where
  front : List α
  back : List α
deriving DecidableEq

namespace Channel

variable {α : Type}

def empty : Channel α := ⟨[], []⟩

/-- What is in the channel, the next to be received first. -/
def toList (c : Channel α) : List α := c.front ++ c.back.reverse

def size (c : Channel α) : Nat := c.front.length + c.back.length

def send (c : Channel α) (a : α) : Channel α := { c with back := a :: c.back }

def receive? (c : Channel α) : Option (α × Channel α) :=
  match c.front with
  | a :: front => some (a, { c with front })
  | [] =>
    match c.back.reverse with
    | [] => none
    | a :: front => some (a, ⟨front, []⟩)

@[simp] theorem toList_empty : (empty : Channel α).toList = [] := rfl

@[simp] theorem toList_send (c : Channel α) (a : α) : (c.send a).toList = c.toList ++ [a] := by
  simp [toList, send]

theorem send_ne (c : Channel α) (a : α) : c.send a ≠ c := fun h =>
  List.cons_ne_self a c.back (congrArg back h)

theorem size_eq_length_toList (c : Channel α) : c.size = c.toList.length := by
  simp [toList, size]

theorem receive?_eq_none_iff {c : Channel α} : c.receive? = none ↔ c.toList = [] := by
  obtain ⟨front, back⟩ := c
  cases front with
  | cons a front => simp [receive?, toList]
  | nil =>
    rw [receive?]
    cases h : back.reverse <;> simp [toList, h]

theorem toList_of_receive? {c d : Channel α} {a : α} (h : c.receive? = some (a, d)) :
    c.toList = a :: d.toList := by
  obtain ⟨front, back⟩ := c
  cases front with
  | cons b front =>
    simp only [receive?, Option.some.injEq, Prod.mk.injEq] at h
    obtain ⟨rfl, rfl⟩ := h
    rfl
  | nil =>
    rw [receive?] at h
    cases hb : back.reverse with
    | nil => simp [hb] at h
    | cons b front =>
      simp only [hb, Option.some.injEq, Prod.mk.injEq] at h
      obtain ⟨rfl, rfl⟩ := h
      simp [toList, hb]

end Channel

end AlertSilences
