import AlertSilences.Proofs.Operations
import Mathlib.Data.Finset.Card
import Mathlib.Tactic.Tauto

/-! Handles in use. Whoever has a handle may stop its action, as often as they like and also through
clones, which are handles of the same number. All stop calls on one action go to one flag, so one of
them tells that it has disarmed the action, the first, and every other one that it has not. -/

namespace AlertSilences

/-- What is asked for: a new action, or that one is stopped, for some reason. -/
inductive Order (ρ : Type)
  | issue (endsAt : Instant)
  | stop (reason : ρ) (handle : Handle)

/-- What was done: an action was issued, or stopped with an answer whether this call disarmed it. -/
inductive Touch (ρ : Type)
  | issued (handle : Handle)
  | stopped (reason : ρ) (handle : Handle) (answer : Bool)
deriving DecidableEq

variable {ρ : Type}

namespace Actions

def carry (t : Actions) : Order ρ → Touch ρ × Actions
  | .issue endsAt => (.issued (t.issue endsAt).1, (t.issue endsAt).2)
  | .stop reason handle => (.stopped reason handle (t.stop handle).1, (t.stop handle).2)

/-- Carries out orders one after another. What was done comes with the latest first. -/
def carryAll (t : Actions) : List (Order ρ) → List (Touch ρ) × Actions
  | [] => ([], t)
  | order :: orders =>
    let (touch, t) := t.carry order
    let (touches, t) := t.carryAll orders
    (touches ++ [touch], t)

def armed (t : Actions) : Finset Nat :=
  (Finset.range t.issued).filter fun index => t.isArmed ⟨index, default⟩

end Actions

def Order.Known (t : Actions) : Order ρ → Prop
  | .issue _ => True
  | .stop _ handle => handle.index < t.issued

namespace Touch

def issues : Touch ρ → Bool
  | .issued _ => true
  | .stopped .. => false

def retires : Touch ρ → Bool
  | .issued _ => false
  | .stopped _ _ answer => answer

def retirement? (handle : Handle) : Touch ρ → Option ρ
  | .issued _ => none
  | .stopped reason clone answer => if answer && clone.same handle then some reason else none

end Touch

/-- Handles are issued and stopped in any order. -/
inductive Handling : List (Touch ρ) → Actions → Prop
  | nil : Handling [] .none
  | snoc {touches t} (before : Handling touches t) (order : Order ρ) (known : order.Known t) :
    Handling ((t.carry order).1 :: touches) (t.carry order).2

namespace Actions

variable {t : Actions}

theorem le_issued_carry (t : Actions) (order : Order ρ) : t.issued ≤ (t.carry order).2.issued := by
  cases order with
  | issue endsAt => exact Nat.le_succ _
  | stop reason handle => exact Nat.le_refl _

theorem isArmed_carry {order : Order ρ} {handle : Handle} :
    (t.carry order).2.isArmed handle = true ↔ t.isArmed handle = true ∧
      ∀ reason clone, order = .stop reason clone → clone.index ≠ handle.index := by
  cases order with
  | issue endsAt =>
    refine (and_iff_left ?_).symm
    rintro reason clone ⟨⟩
  | stop reason clone =>
    refine (isArmed_disarm t clone handle).trans (and_congr_right fun _ => ⟨?_, fun h => h _ _ rfl⟩)
    rintro hne _ _ ⟨⟩
    exact hne

theorem mem_armed {index : Nat} :
    index ∈ t.armed ↔ index < t.issued ∧ t.isArmed ⟨index, default⟩ = true := by
  rw [armed, Finset.mem_filter, Finset.mem_range]

theorem armed_issue (endsAt : Instant) (h : t.isArmed ⟨t.issued, default⟩ = true) :
    (t.issue endsAt).2.armed = insert t.issued t.armed := by
  have hissued : (t.issue endsAt).2.issued = t.issued + 1 := rfl
  have hsame : (t.issue endsAt).2.isArmed = t.isArmed := rfl
  rw [armed, hissued, hsame, Finset.range_add_one, Finset.filter_insert, if_pos h, armed]

theorem armed_disarm (t : Actions) (handle : Handle) :
    (t.disarm handle).armed = t.armed.erase handle.index := by
  ext index
  have hissued : (t.disarm handle).issued = t.issued := rfl
  rw [Finset.mem_erase, mem_armed, mem_armed, isArmed_disarm, hissued, ne_comm]
  tauto

/-- An order that is told to have disarmed an action was given, and the action was armed. -/
theorem of_mem_carryAll {orders : List (Order ρ)} {reason : ρ} {handle : Handle} {answer : Bool}
    (h : .stopped reason handle answer ∈ (t.carryAll orders).1) :
    .stop reason handle ∈ orders ∧ (answer = true → t.isArmed handle = true) := by
  induction orders generalizing t with
  | nil => cases h
  | cons order orders ih =>
    rcases List.mem_append.1 h with h | h
    · obtain ⟨hmem, harmed⟩ := ih h
      exact ⟨List.mem_cons_of_mem _ hmem, fun ha => (isArmed_carry.1 (harmed ha)).1⟩
    · rw [List.mem_singleton] at h
      cases order with
      | issue endsAt => cases h
      | stop reason clone =>
        obtain ⟨rfl, rfl, rfl⟩ := Touch.stopped.inj h
        exact ⟨List.mem_cons_self, fun ha => ha⟩

end Actions

namespace Handling

variable {touches : List (Touch ρ)} {t : Actions}

theorem carryAll {orders : List (Order ρ)} (h : Handling touches t)
    (known : ∀ order ∈ orders, order.Known t) :
    Handling ((t.carryAll orders).1 ++ touches) (t.carryAll orders).2 := by
  induction orders generalizing touches t with
  | nil => exact h
  | cons order orders ih =>
    obtain ⟨hfirst, hrest⟩ := List.forall_mem_cons.1 known
    have hmore := ih (h.snoc order hfirst) fun o ho => by
      cases o with
      | issue => trivial
      | stop => exact Nat.lt_of_lt_of_le (hrest _ ho) (t.le_issued_carry order)
    simpa only [Actions.carryAll, List.append_assoc, List.singleton_append] using hmore

theorem fresh (h : Handling touches t) {handle : Handle} (hi : t.issued ≤ handle.index) :
    t.isArmed handle = true := by
  induction h with
  | nil => simp [Actions.isArmed, Actions.none]
  | @snoc touches t before order known ih =>
    refine Actions.isArmed_carry.2 ⟨ih (Nat.le_trans (t.le_issued_carry order) hi), ?_⟩
    rintro reason clone rfl
    exact Nat.ne_of_lt (Nat.lt_of_lt_of_le known hi)

theorem countP_issues (h : Handling touches t) : touches.countP Touch.issues = t.issued := by
  induction h with
  | nil => rfl
  | snoc before order known ih =>
    cases order with
    | issue endsAt => rw [List.countP_cons_of_pos rfl, ih]; rfl
    | stop reason handle => rw [List.countP_cons_of_neg Bool.false_ne_true, ih]; rfl

/-- What stops an action finds it armed once, and never again. -/
theorem length_retirements (h : Handling touches t) (handle : Handle) :
    (touches.filterMap (Touch.retirement? handle)).length = if t.isArmed handle then 0 else 1 := by
  induction h with
  | nil => simp [Actions.isArmed, Actions.none]
  | @snoc touches t before order known ih =>
    cases order with
    | issue endsAt => exact ih
    | stop reason clone =>
      by_cases hs : clone.same handle = true
      · have hstopped : (t.disarm clone).isArmed handle = false := by
          rw [Bool.eq_false_iff, ne_eq, Actions.isArmed_disarm]
          exact fun h => h.2 (Handle.same_iff.1 hs)
        have harmed := Actions.isArmed_of_same hs t
        simp only [Actions.carry, Actions.stop, Touch.retirement?, List.filterMap_cons, hs, harmed,
          Bool.and_true, hstopped, Bool.false_eq_true, if_false]
        cases h : t.isArmed handle <;> simp [h] at ih ⊢ <;> simpa using ih
      · have hsame : (t.disarm clone).isArmed handle = t.isArmed handle := by
          rw [Bool.eq_iff_iff, Actions.isArmed_disarm]
          exact and_iff_left fun heq => hs (Handle.same_iff.2 heq)
        simp only [Actions.carry, Actions.stop, Touch.retirement?, List.filterMap_cons, hs,
          Bool.and_false, Bool.false_eq_true, if_false, hsame, ih]

/-- What was issued is armed or was retired. -/
theorem issued_eq (h : Handling touches t) :
    t.issued = t.armed.card + touches.countP Touch.retires := by
  induction h with
  | nil => rfl
  | @snoc touches t before order known ih =>
    cases order with
    | issue endsAt =>
      have hnew : t.issued ∉ t.armed := fun hmem => Nat.lt_irrefl _ (Actions.mem_armed.1 hmem).1
      have hcard : (t.issue endsAt).2.armed.card = t.armed.card + 1 := by
        rw [Actions.armed_issue endsAt (before.fresh (Nat.le_refl _)),
          Finset.card_insert_of_notMem hnew]
      have hissued : (t.issue endsAt).2.issued = t.issued + 1 := rfl
      rw [Actions.carry, List.countP_cons_of_neg Bool.false_ne_true, hcard, hissued, ih]
      omega
    | stop reason handle =>
      have hissued : (t.stop handle).2.issued = t.issued := rfl
      have harmed : (t.stop handle).2.armed = t.armed.erase handle.index := t.armed_disarm handle
      have hanswer : Touch.retires (.stopped reason handle (t.stop handle).1) = t.isArmed handle := rfl
      rw [Actions.carry, hissued, harmed, List.countP_cons, hanswer]
      cases hh : t.isArmed handle with
      | true =>
        have hcard := Finset.card_erase_add_one (Actions.mem_armed.2 ⟨known, hh⟩)
        simp only [if_true]
        omega
      | false =>
        have hout : handle.index ∉ t.armed := by
          intro hmem
          cases (Actions.mem_armed.1 hmem).2.symm.trans hh
        rw [Finset.erase_eq_of_notMem hout, ih]
        rfl

theorem exists_of_cons {touch : Touch ρ} (h : Handling (touch :: touches) t) :
    ∃ t₀ order, Handling touches t₀ ∧ t₀.carry order = (touch, t) := by
  generalize hl : touch :: touches = all at h
  cases h with
  | nil => cases hl
  | snoc before order known =>
    obtain ⟨rfl, rfl⟩ := List.cons.inj hl
    exact ⟨_, order, before, rfl⟩

/-- From the first stop call on no call finds an action armed, and nothing arms it. -/
theorem not_isArmed_of_stopped {later earlier : List (Touch ρ)} {reason : ρ} {clone handle : Handle}
    {answer : Bool} (h : Handling (later ++ .stopped reason clone answer :: earlier) t)
    (hs : clone.same handle = true) :
    t.isArmed handle = false ∧ later.filterMap (Touch.retirement? handle) = [] := by
  induction later generalizing t with
  | nil =>
    obtain ⟨t₀, order, -, hcarry⟩ := h.exists_of_cons
    cases order with
    | issue endsAt => cases hcarry
    | stop reason' clone' =>
      cases hcarry
      refine ⟨?_, rfl⟩
      rw [Bool.eq_false_iff]
      exact fun harmed => (Actions.isArmed_disarm t₀ clone handle).1 harmed |>.2
        (Handle.same_iff.1 hs)
  | cons touch later ih =>
    obtain ⟨t₀, order, before, hcarry⟩ := h.exists_of_cons
    obtain ⟨hstopped, hnone⟩ := ih before
    obtain ⟨rfl, rfl⟩ := Prod.mk.inj hcarry
    constructor
    · rw [Bool.eq_false_iff] at hstopped ⊢
      exact fun harmed => hstopped (Actions.isArmed_carry.1 harmed).1
    · rw [List.filterMap_cons_none, hnone]
      cases order with
      | issue endsAt => rfl
      | stop reason' clone' =>
        refine if_neg fun hboth => ?_
        obtain ⟨harmed, hsame⟩ := (Bool.and_eq_true _ _).mp hboth
        have harmed : t₀.isArmed clone' = true := harmed
        rw [Actions.isArmed_of_same hsame, hstopped] at harmed
        cases harmed

end Handling

end AlertSilences
