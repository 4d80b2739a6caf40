import AlertSilences.Proofs.Versions

/-! The registry is a finite map and a counter. A ledger is just that: silences by id and the
highest id. Fed with the calls of a history, and with one removal for each silence that the
worker told to be expired, it gives every answer that the registry gave. -/

namespace AlertSilences

structure Ledger where
  silences : Std.ExtTreeMap SilenceId Silence
  counter : Nat

namespace Ledger

def empty : Ledger := ⟨∅, 0⟩

/-- The id that an addition goes to: its own, or the next one if any is left. -/
def target? (l : Ledger) (s : Silence) : Option SilenceId :=
  if s.id ≠ .unset then some s.id
  else if l.counter + 1 < UInt64.size then some ⟨.ofNat (l.counter + 1)⟩
  else none

def remove (l : Ledger) (id : SilenceId) : Ledger := { l with silences := l.silences.erase id }

/-- The ledger after a step of the worker, which tells what it has removed. -/
def told (l : Ledger) : Log → Ledger
  | [.expired id] => l.remove id
  | _ => l

def after (l : Ledger) : Call → Ledger
  | .add s _ =>
    match l.target? s with
    | some id => ⟨l.silences.insert id { s with id }, max l.counter id.value.toNat⟩
    | none => l
  | .update s _ =>
    if s.id ∈ l.silences then { l with silences := l.silences.insert s.id s } else l
  | .delete id _ => l.remove id
  | .clear _ => { l with silences := ∅ }
  | _ => l

/-- Whether a call has the answer that the ledger gives. -/
def Grants (l : Ledger) : Call → Prop
  | .add s answer =>
    answer = match l.target? s with
      | some id => .ok id
      | none => .error (.idsExhausted ⟨.ofNat l.counter⟩)
  | .update s answer => answer = if s.id ∈ l.silences then .ok () else .error (.notFound s.id)
  | .get id answer =>
    answer = match l.silences[id]? with
      | some s => .ok s
      | none => .error (.notFound id)
  | .delete id answer => answer = if id ∈ l.silences then .ok () else .error (.notFound id)
  | .list answer => answer.Perm l.silences.values ∧ (answer.map (·.id)).Perm l.silences.keys
  | .size answer => answer = l.silences.size
  | .isEmpty answer => answer = l.silences.isEmpty
  | .inhibiting event none => ∀ (id : SilenceId) (s : Silence), l.silences[id]? = some s →
    s.filters.handles event = false
  | .inhibiting event (some s) => (∃ id : SilenceId, l.silences[id]? = some s) ∧
    s.filters.handles event = true
  | .close => True
  | .clear answer => answer = l.silences.size

end Ledger

def History.ledger : History → Ledger
  | [] => .empty
  | m :: past =>
    match m.move with
    | .call _ call => (ledger past).after call
    | .work => (ledger past).told m.log

namespace Registry

/-- A registry without its actions. -/
def ledger (r : Registry) : Ledger :=
  ⟨r.records.map fun _ stored => stored.silence, r.lastId.value.toNat⟩

@[simp] theorem getElem?_ledger (r : Registry) (id : SilenceId) :
    r.ledger.silences[id]? = (r.records[id]?).map Stored.silence := by
  simp [ledger]

@[simp] theorem mem_ledger {r : Registry} {id : SilenceId} :
    id ∈ r.ledger.silences ↔ (r.records[id]?).isSome = true := by
  rw [Std.ExtTreeMap.mem_iff_isSome_getElem?, getElem?_ledger, Option.isSome_map]

@[simp] theorem size_ledger (r : Registry) : r.ledger.silences.size = r.size :=
  Std.ExtTreeMap.size_map

@[simp] theorem values_ledger (r : Registry) : r.ledger.silences.values = r.silences := by
  simp [ledger, silences, OrderedMap.values_eq_map_snd, Std.ExtTreeMap.toList_map]

theorem ledger_eq {r : Registry} {l : Ledger}
    (hs : ∀ id : SilenceId, (r.records[id]?).map Stored.silence = l.silences[id]?)
    (hc : r.lastId.value.toNat = l.counter) : r.ledger = l := by
  have hsilences : r.ledger.silences = l.silences := by
    apply Std.ExtTreeMap.ext_getElem?
    intro id
    rw [getElem?_ledger, hs]
  exact congr (congrArg Ledger.mk hsilences) hc

@[simp] theorem ledger_empty : empty.ledger = .empty :=
  ledger_eq (by simp [empty, Ledger.empty]) rfl

theorem ledger_put (now : Instant) (s : Silence) (r : Registry) :
    (r.put now s).ledger = { r.ledger with silences := r.ledger.silences.insert s.id s } := by
  refine ledger_eq (fun id => ?_) (by rw [lastId_put]; rfl)
  rw [records_put, OrderedMap.getElem?_insert, OrderedMap.getElem?_insert, getElem?_ledger]
  split_ifs <;> rfl

theorem ledger_removeRecord (r : Registry) (id : SilenceId) :
    (r.removeRecord id).ledger = r.ledger.remove id := by
  refine ledger_eq (fun other => ?_) (by rw [lastId_removeRecord]; rfl)
  rw [records_removeRecord, Ledger.remove, OrderedMap.getElem?_erase, OrderedMap.getElem?_erase,
    getElem?_ledger]
  split_ifs <;> rfl

theorem ledger_stopAll (r : Registry) (hs : List Handle) : (r.stopAll hs).ledger = r.ledger := by
  obtain ⟨stopped, he⟩ := stopAll_eq r hs
  rw [he]
  rfl

theorem ledger_clear (r : Registry) :
    { r.stopAll r.handles with records := ∅ }.ledger = { r.ledger with silences := ∅ } := by
  refine ledger_eq (by simp) ?_
  exact congrArg Ledger.counter (ledger_stopAll r r.handles)

theorem ledger_with_lastId (r : Registry) {n : Nat} (h : n < UInt64.size) :
    { r with lastId := ⟨.ofNat n⟩ }.ledger = { r.ledger with counter := n } := by
  simp only [ledger, UInt64.toNat_ofNat_of_lt' h]

/-- Where an addition goes, and what the highest id is then. -/
theorem assignId_eq (r : Registry) (s : Silence) :
    r.assignId s = match r.ledger.target? s with
      | some id => .ok (id, ⟨.ofNat (max r.lastId.value.toNat id.value.toNat)⟩)
      | none => .error (.idsExhausted ⟨.ofNat r.lastId.value.toNat⟩) := by
  have hlast : (⟨.ofNat r.lastId.value.toNat⟩ : SilenceId) = r.lastId := by
    rw [UInt64.ofNat_toNat]
  have hcounter : r.ledger.counter = r.lastId.value.toNat := rfl
  have hunset : SilenceId.unset.isUnset = true := rfl
  unfold assignId Ledger.target?
  rw [hcounter]
  by_cases hs : s.id = .unset
  · simp only [hs, hunset, if_true, ne_eq, not_true_eq_false, if_false, SilenceId.next?]
    split_ifs with hroom
    · have hnext : UInt64.ofNat (r.lastId.value.toNat + 1) = r.lastId.value + 1 := by
        rw [UInt64.ofNat_add, UInt64.ofNat_toNat]
        rfl
      have hmax : max r.lastId.value.toNat (UInt64.ofNat (r.lastId.value.toNat + 1)).toNat =
          r.lastId.value.toNat + 1 := by
        rw [UInt64.toNat_ofNat_of_lt' hroom]
        omega
      dsimp only
      rw [hmax, hnext]
    · simp only [hlast]
  · have hset : s.id.isUnset = false := by
      rw [Bool.eq_false_iff]
      intro hz
      exact hs (congrArg SilenceId.mk (by simpa [SilenceId.isUnset] using hz))
    simp only [hset, hs, ne_eq, not_false_eq_true, if_true, Bool.false_eq_true, if_false]
    congr 2
    split_ifs with hlt
    · have hle : r.lastId.value.toNat ≤ s.id.value.toNat := Nat.le_of_lt (UInt64.lt_iff_toNat_lt.1 hlt)
      rw [Nat.max_eq_right hle, UInt64.ofNat_toNat]
    · have hle : s.id.value.toNat ≤ r.lastId.value.toNat := by
        rw [← Nat.not_lt]
        exact fun h => hlt (UInt64.lt_iff_toNat_lt.2 h)
      rw [Nat.max_eq_left hle, hlast]

theorem ledger_of_answers {now : Instant} {r r' : Registry} {log : Log} {call : Call}
    (h : r.Answers now r' log call) : r'.ledger = r.ledger.after call := by
  cases call with
  | add s answer =>
    obtain rfl : (r.add now s).registry = r' := congrArg Outcome.registry h
    rw [registry_add, assignId_eq, Ledger.after]
    cases r.ledger.target? s with
    | none => rfl
    | some id =>
      have hfits : max r.lastId.value.toNat id.value.toNat < UInt64.size :=
        Nat.max_lt.2 ⟨UInt64.toNat_lt _, UInt64.toNat_lt _⟩
      dsimp only
      rw [ledger_put, ledger_with_lastId r hfits]
      rfl
  | update s answer =>
    obtain rfl : (r.update now s).registry = r' := congrArg Outcome.registry h
    simp only [registry_update, Ledger.after, mem_ledger]
    split_ifs
    · exact ledger_put now s r
    · rfl
  | delete id answer =>
    obtain rfl : (r.delete id).registry = r' := congrArg Outcome.registry h
    rw [registry_delete]
    exact ledger_removeRecord r id
  | close =>
    obtain rfl : r.stopAll r.handles = r' := congrArg Outcome.registry h
    exact ledger_stopAll r r.handles
  | clear answer =>
    obtain rfl : { r.stopAll r.handles with records := ∅ } = r' := congrArg Outcome.registry h
    exact ledger_clear r
  | _ =>
    obtain ⟨-, rfl, -⟩ := h
    rfl

/-- Scanned in any order, the registry has a silence for an event just if the ledger has one. -/
theorem grants_inhibiting {r : Registry} {scan : List Silence} (h : scan.Perm r.silences)
    (event : Lookup) : r.ledger.Grants (.inhibiting event (inhibiting? scan event)) := by
  rw [← values_ledger, OrderedMap.values_eq_map_snd] at h
  have hmem (s : Silence) : s ∈ scan ↔ ∃ id : SilenceId, r.ledger.silences[id]? = some s := by
    simp [h.mem_iff]
  cases hfind : inhibiting? scan event with
  | none =>
    intro id s hs
    have := List.find?_eq_none.1 hfind s ((hmem s).2 ⟨id, hs⟩)
    exact Bool.eq_false_iff.2 this
  | some s =>
    exact ⟨(hmem s).1 (List.mem_of_find?_eq_some hfind),
      List.find?_some (p := fun s : Silence => s.filters.handles event) hfind⟩

theorem grants_of_answers {now : Instant} {r r' : Registry} {log : Log} {call : Call}
    (hids : ∀ (id : SilenceId) (s : Silence), r.ledger.silences[id]? = some s → s.id = id)
    (h : r.Answers now r' log call) : r.ledger.Grants call := by
  cases call with
  | add s answer =>
    obtain rfl : (r.add now s).answer = answer := congrArg Outcome.answer h
    rw [Ledger.Grants, answer_add, assignId_eq]
    cases r.ledger.target? s <;> rfl
  | update s answer =>
    obtain rfl : (r.update now s).answer = answer := congrArg Outcome.answer h
    simp only [Ledger.Grants, answer_update, mem_ledger]
  | delete id answer =>
    obtain rfl : (r.delete id).answer = answer := congrArg Outcome.answer h
    simp only [Ledger.Grants, answer_delete, mem_ledger]
  | get id answer =>
    obtain ⟨rfl, -, -⟩ := h
    rw [Ledger.Grants, getElem?_ledger, Registry.get]
    cases r.records[id]? <;> rfl
  | list answer =>
    obtain ⟨hperm, -, -⟩ := h
    rw [← values_ledger] at hperm
    refine ⟨hperm, (hperm.map (·.id)).trans (.of_eq ?_)⟩
    rw [OrderedMap.values_eq_map_snd, ← Std.ExtTreeMap.map_fst_toList_eq_keys, List.map_map]
    refine List.map_congr_left fun e he => ?_
    exact hids e.1 e.2 (Std.ExtTreeMap.mem_toList_iff_getElem?_eq_some.1 he)
  | size answer =>
    obtain ⟨rfl, -, -⟩ := h
    exact (size_ledger r).symm
  | isEmpty answer =>
    obtain ⟨rfl, -, -⟩ := h
    rw [Ledger.Grants, Std.ExtTreeMap.isEmpty_eq_size_beq_zero, size_ledger]
  | inhibiting event answer =>
    obtain ⟨⟨scan, hperm, rfl⟩, -, -⟩ := h
    exact grants_inhibiting hperm event
  | close => trivial
  | clear answer =>
    have ha : Except.ok r.size = Except.ok answer := congrArg Outcome.answer h
    cases ha
    exact (size_ledger r).symm

/-- What the worker tells to be expired is what it removes. -/
theorem ledger_of_work {now : Instant} {r r' : Registry} {log : Log} (h : r.Work now r' log) :
    r'.ledger = r.ledger.told log := by
  cases h with
  | advance ha => cases ha <;> rfl
  | @expire _ _ task => exact ledger_removeRecord r task.id
  | pass _ _ hl => rcases hl with rfl | rfl <;> rfl

end Registry

theorem Run.ledger_eq {history : History} {r : Registry} (run : Run history r) :
    r.ledger = history.ledger := by
  induction run with
  | nil => exact Registry.ledger_empty
  | @snoc history r r' m run step ih =>
    rw [History.ledger, ← ih]
    rcases Registry.answers_or_work_of_step step with ⟨client, call, hm, ha⟩ | ⟨hm, hw⟩
    · rw [hm]
      exact Registry.ledger_of_answers ha
    · rw [hm]
      exact Registry.ledger_of_work hw

/-- A ledger keeps what was written last under an id, and that has this id. -/
theorem Run.latest?_of_ledger {history : History} {r : Registry} (run : Run history r)
    {id : SilenceId} {s : Silence} (h : history.ledger.silences[id]? = some s) :
    s.id = id ∧ ∃ version, history.latest? id = some version ∧ version.silence = s := by
  rw [← run.ledger_eq, Registry.getElem?_ledger, Option.map_eq_some_iff] at h
  obtain ⟨stored, hr, rfl⟩ := h
  have hlatest := run.versioned.latest id stored hr
  exact ⟨History.id_of_latest? hlatest, _, hlatest, rfl⟩

/-- The registry refines a finite map with a counter. In every run every call has had the answer
that the ledger of what came before it gives; and the ledger stays what the registry holds, under
every id what was written under it last. -/
theorem answers_of_ledger {history : History} {r : Registry} (run : Run history r) :
    (∀ (m : Moment) (past : History) (client : Nat) (call : Call), m :: past <:+ history →
      m.move = .call client call → past.ledger.Grants call) ∧
    (∀ id : SilenceId,
      history.ledger.silences[id]? = (r.records[id]?).map Stored.silence) ∧
    history.ledger.counter = r.lastId.value.toNat ∧
    ∀ (id : SilenceId) (s : Silence), history.ledger.silences[id]? = some s →
      s.id = id ∧ ∃ version, history.latest? id = some version ∧ version.silence = s := by
  have hledger := run.ledger_eq
  refine ⟨?_, ?_, by rw [← hledger]; rfl, fun id s => run.latest?_of_ledger⟩
  · induction run with
    | nil =>
      intro m past client call hs
      exact absurd (List.suffix_nil.1 hs) (List.cons_ne_nil _ _)
    | @snoc history r r' last run step ih =>
      intro m past client call hs hm
      rcases List.suffix_cons_iff.1 hs with heq | hs
      · obtain ⟨rfl, rfl⟩ := List.cons.inj heq
        rcases Registry.answers_or_work_of_step step with ⟨_, _, hcall, ha⟩ | ⟨hwork, -⟩
        · obtain ⟨rfl, rfl⟩ := Move.call.inj (hm.symm.trans hcall)
          rw [← run.ledger_eq]
          refine Registry.grants_of_answers (fun id s hs => ?_) ha
          rw [run.ledger_eq] at hs
          exact (run.latest?_of_ledger hs).1
        · cases hm.symm.trans hwork
      · exact ih run.ledger_eq m past client call hs hm
  · intro id
    rw [← hledger, Registry.getElem?_ledger]

/-- A silence that the worker has removed is gone from the ledger, and so its id is not found. -/
theorem answers_of_ledger_after_expiry :
    ∃ (past : History) (r : Registry),
      Run (⟨default, .call 1 (.get ⟨1⟩ (.error (.notFound ⟨1⟩))), []⟩ :: past) r ∧
      r.size = 0 ∧ r.lastId = ⟨1⟩ ∧ past.ledger.Grants (.get ⟨1⟩ (.error (.notFound ⟨1⟩))) := by
  have stored := Run.nil.add 0 default (.new default "ops" default)
  obtain ⟨work, -, run⟩ := stored.settle default 10
  generalize hr : (settle _ 10 _).1 = r at run
  have hget : r.get ⟨1⟩ = .error (.notFound ⟨1⟩) := by
    rw [← hr]
    cbv
  have hsize : (r.size, r.lastId) = (0, ⟨1⟩) := by
    rw [← hr]
    cbv
  obtain ⟨hempty, hlast⟩ := Prod.mk.inj hsize
  have run' := run.snoc (m := ⟨default, .call 1 (.get ⟨1⟩ (.error (.notFound ⟨1⟩))), []⟩)
    ⟨hget, rfl, rfl⟩
  exact ⟨_, r, run', hempty, hlast,
    (answers_of_ledger run').1 _ _ 1 _ List.suffix_rfl rfl⟩

end AlertSilences
