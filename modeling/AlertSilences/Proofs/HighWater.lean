import AlertSilences.Proofs.Reloaded

/-! The highest id so far is the highest id that an addition ever answered. No record is above it,
and every record is under the id that it carries. So an addition that is to find an id by itself
goes beyond all ids that were there before, until none is left. -/

namespace AlertSilences

namespace SilenceId

/-- The highest of some ids, or zero. -/
def highest (ids : List SilenceId) : Nat := (ids.map (·.value.toNat)).foldr max 0

def last : SilenceId := ⟨18446744073709551615⟩

@[simp] theorem highest_cons (id : SilenceId) (ids : List SilenceId) :
    highest (id :: ids) = max id.value.toNat (highest ids) := rfl

@[simp] theorem highest_singleton (id : SilenceId) : highest [id] = id.value.toNat := Nat.max_zero _

theorem highest_append (ids more : List SilenceId) :
    highest (ids ++ more) = max (highest ids) (highest more) := by
  induction ids with
  | nil => exact (Nat.zero_max _).symm
  | cons id ids ih => rw [List.cons_append, highest_cons, highest_cons, ih, Nat.max_assoc]

theorem le_highest {ids : List SilenceId} {id : SilenceId} (h : id ∈ ids) :
    id.value.toNat ≤ highest ids := by
  induction ids with
  | nil => cases h
  | cons other ids ih =>
    rw [highest_cons]
    rcases List.mem_cons.1 h with rfl | h
    · exact Nat.le_max_left _ _
    · exact Nat.le_trans (ih h) (Nat.le_max_right _ _)

/-- Unless it is zero, the highest of some ids is one of them. -/
theorem mem_of_highest {ids : List SilenceId} {id : SilenceId}
    (h : highest ids = id.value.toNat) (hset : id ≠ .unset) : id ∈ ids := by
  induction ids with
  | nil => exact absurd (congrArg mk (UInt64.toNat_inj.1 h.symm)) hset
  | cons other ids ih =>
    rw [highest_cons] at h
    rcases Nat.le_total (highest ids) other.value.toNat with hle | hle
    · rw [Nat.max_eq_left hle] at h
      exact List.mem_cons.2 (.inl (congrArg mk (UInt64.toNat_inj.1 h.symm)))
    · rw [Nat.max_eq_right hle] at h
      exact List.mem_cons_of_mem _ (ih h)

end SilenceId

open SilenceId

def Move.added? : Move → Option SilenceId
  | .call _ (.add _ (.ok id)) => some id
  | _ => none

/-- All ids that additions have answered, the latest first. -/
def History.added (history : History) : List SilenceId := history.filterMap (·.move.added?)

@[simp] theorem History.added_cons (m : Moment) (past : History) :
    History.added (m :: past) = m.move.added?.toList ++ past.added := by
  rw [added, List.filterMap_cons]
  cases m.move.added? <;> rfl

theorem History.added_append (later past : History) :
    History.added (later ++ past) = later.added ++ past.added := List.filterMap_append

namespace Registry

/-- An addition that is to find an id takes the next one, if there is one. -/
theorem answer_add_of_unset (now : Instant) {s : Silence} (h : s.id = .unset) (r : Registry) :
    (r.add now s).answer =
      if r.lastId.value.toNat + 1 < UInt64.size then
        .ok ⟨.ofNat (r.lastId.value.toNat + 1)⟩
      else .error (.idsExhausted .last) := by
  have hcounter : r.ledger.counter = r.lastId.value.toNat := rfl
  rw [answer_add, assignId_eq, Ledger.target?, h, hcounter]
  simp only [ne_eq, not_true_eq_false, if_false]
  split_ifs with hroom
  · rfl
  · have hlast : r.lastId.value.toNat = 18446744073709551615 := by
      have := UInt64.toNat_lt r.lastId.value
      rw [UInt64.size] at hroom
      omega
    rw [hlast]
    rfl

/-- The highest id rises to the id that an addition answers, and it stays under any other call. -/
theorem lastId_of_answers {now : Instant} {r r' : Registry} {log : Log} {call : Call}
    (client : Nat) (h : r.Answers now r' log call) :
    r'.lastId.value.toNat =
      max (highest (Move.call client call).added?.toList) r.lastId.value.toNat := by
  have hcounter : r'.lastId.value.toNat = (r.ledger.after call).counter :=
    congrArg Ledger.counter (ledger_of_answers h)
  rw [hcounter]
  cases call with
  | add s answer =>
    obtain rfl : (r.add now s).answer = answer := congrArg Outcome.answer h
    rw [answer_add, assignId_eq, Ledger.after]
    cases r.ledger.target? s with
    | none => exact (Nat.zero_max _).symm
    | some id =>
      change max r.ledger.counter id.value.toNat = max (highest [id]) r.lastId.value.toNat
      rw [highest_singleton, Nat.max_comm]
      rfl
  | update s answer =>
    rw [Ledger.after]
    split_ifs <;> exact (Nat.zero_max _).symm
  | _ => exact (Nat.zero_max _).symm

theorem lastId_of_work {now : Instant} {r r' : Registry} {log : Log} (h : r.Work now r' log) :
    r'.lastId = r.lastId := by
  cases h with
  | advance => rfl
  | @expire _ _ task => exact lastId_removeRecord r task.id
  | pass => rfl

theorem lastId_of_step {r r' : Registry} {m : Moment} (h : r.Step r' m) :
    r'.lastId.value.toNat = max (highest m.move.added?.toList) r.lastId.value.toNat := by
  rcases answers_or_work_of_step h with ⟨client, call, hm, ha⟩ | ⟨hm, hw⟩
  · rw [hm]
    exact lastId_of_answers client ha
  · rw [hm, lastId_of_work hw]
    exact (Nat.zero_max _).symm

/-- An addition leaves the highest id no lower than the id that it was called with. -/
theorem le_lastId_of_answers_add {now : Instant} {r r' : Registry} {log : Log} {s : Silence}
    {answer : Except Failure SilenceId} (h : r.Answers now r' log (.add s answer)) :
    s.id.value.toNat ≤ r'.lastId.value.toNat := by
  by_cases hunset : s.id = .unset
  · rw [hunset]
    exact Nat.zero_le _
  · have hanswer : answer = .ok s.id :=
      (congrArg Outcome.answer h).symm.trans (add_of_set now hunset r).1
    rw [lastId_of_answers 0 h, hanswer]
    exact Nat.le_trans (Nat.le_max_left _ _) (Nat.le_max_left _ _)

end Registry

/-- The highest id so far is the highest that an addition has answered. -/
theorem Run.lastId_eq {history : History} {r : Registry} (run : Run history r) :
    r.lastId.value.toNat = highest history.added := by
  induction run with
  | nil => rfl
  | snoc _ step ih => rw [Registry.lastId_of_step step, ih, History.added_cons, highest_append]

/-- The highest id never falls. -/
theorem Run.lastId_le {history past : History} {r before : Registry} (run : Run history r)
    (run' : Run past before) (h : past <:+ history) :
    before.lastId.value.toNat ≤ r.lastId.value.toNat := by
  obtain ⟨later, rfl⟩ := h
  rw [run.lastId_eq, run'.lastId_eq, History.added_append, highest_append]
  exact Nat.le_max_right _ _

/-- No addition was ever called with an id above the highest. -/
theorem Run.supplied_le {history : History} {r : Registry} (run : Run history r) {m : Moment}
    (hm : m ∈ history) {client : Nat} {s : Silence} {answer : Except Failure SilenceId}
    (hcall : m.move = .call client (.add s answer)) :
    s.id.value.toNat ≤ r.lastId.value.toNat := by
  induction run with
  | nil => cases hm
  | @snoc history r r' latest run step ih =>
    rcases List.mem_cons.1 hm with rfl | hm
    · rcases Registry.answers_or_work_of_step step with ⟨_, _, hcall', ha⟩ | ⟨hwork, -⟩
      · obtain ⟨rfl, rfl⟩ := Move.call.inj (hcall.symm.trans hcall')
        exact Registry.le_lastId_of_answers_add ha
      · cases hcall.symm.trans hwork
    · rw [Registry.lastId_of_step step]
      exact Nat.le_trans (ih hm) (Nat.le_max_right _ _)

namespace Ledger

/-- No silence is under an id above the counter. -/
def Topped (l : Ledger) : Prop := ∀ id ∈ l.silences, id.value.toNat ≤ l.counter

theorem Topped.remove {l : Ledger} (h : l.Topped) (id : SilenceId) : (l.remove id).Topped :=
  fun other hmem => h other (Std.ExtTreeMap.mem_of_mem_erase hmem)

theorem Topped.after {l : Ledger} (h : l.Topped) (call : Call) : (l.after call).Topped := by
  cases call with
  | add s answer =>
    rw [Ledger.after]
    cases l.target? s with
    | none => exact h
    | some id =>
      intro other hmem
      rcases Std.ExtTreeMap.mem_insert.1 hmem with heq | hmem
      · obtain rfl := Std.LawfulEqCmp.eq_of_compare heq
        exact Nat.le_max_right _ _
      · exact Nat.le_trans (h other hmem) (Nat.le_max_left _ _)
  | update s answer =>
    rw [Ledger.after]
    split_ifs with hthere
    · intro other hmem
      rcases Std.ExtTreeMap.mem_insert.1 hmem with heq | hmem
      · obtain rfl := Std.LawfulEqCmp.eq_of_compare heq
        exact h _ hthere
      · exact h other hmem
    · exact h
  | delete id answer => exact h.remove id
  | clear answer => exact fun other hmem => absurd hmem Std.ExtTreeMap.not_mem_empty
  | _ => exact h

end Ledger

theorem History.topped_ledger (history : History) : history.ledger.Topped := by
  induction history with
  | nil => exact fun id hmem => absurd hmem Std.ExtTreeMap.not_mem_empty
  | cons m past ih =>
    rw [ledger]
    split
    · exact ih.after _
    · unfold Ledger.told
      split
      · exact ih.remove _
      · exact ih

namespace Registry

/-- Every record is under the id that it carries, which is an id and not above the highest. -/
def Numbered (r : Registry) : Prop :=
  ∀ (id : SilenceId) (stored : Stored), r.records[id]? = some stored →
    stored.silence.id = id ∧ id ≠ .unset ∧ id.value.toNat ≤ r.lastId.value.toNat

/-- An addition that found an id by itself went beyond all that was there: the id is above all that
additions answered or were called with, and no record has gone for it. -/
structure Extends (history : History) (r : Registry) (out : Outcome SilenceId) (id : SilenceId) :
    Prop where
  answer : out.answer = .ok id
  assigned : ∀ earlier ∈ history.added, earlier < id
  supplied : ∀ m ∈ history, ∀ (client : Nat) (s : Silence) (answer : Except Failure SilenceId),
    m.move = .call client (.add s answer) → s.id < id
  free : r.records[id]? = none
  kept : ∀ (other : SilenceId) (stored : Stored), r.records[other]? = some stored →
    out.registry.records[other]? = some stored

end Registry

theorem Run.numbered {history : History} {r : Registry} (run : Run history r) : r.Numbered := by
  intro id stored hr
  have hs : history.ledger.silences[id]? = some stored.silence := by
    rw [← run.ledger_eq, Registry.getElem?_ledger, hr]
    rfl
  refine ⟨(run.latest?_of_ledger hs).1, ?_, ?_⟩
  · rintro rfl
    rw [history.getElem?_ledger_unset] at hs
    cases hs
  · have hmem : id ∈ history.ledger.silences := by
      rw [Std.ExtTreeMap.mem_iff_isSome_getElem?, hs]
      rfl
    have hle := history.topped_ledger id hmem
    rw [← run.ledger_eq] at hle
    exact hle

namespace Registry

/-- The last id is taken just if an addition has answered it. -/
theorem last_mem_added_iff {history : History} {r : Registry} (run : Run history r) :
    SilenceId.last ∈ history.added ↔ ¬r.lastId.value.toNat + 1 < UInt64.size := by
  have hlt := UInt64.toNat_lt r.lastId.value
  rw [run.lastId_eq, UInt64.size] at *
  constructor
  · intro hmem
    have hle := le_highest hmem
    rw [show SilenceId.last.value.toNat = 18446744073709551615 from rfl] at hle
    omega
  · intro hfull
    refine mem_of_highest ?_ (by decide)
    rw [show SilenceId.last.value.toNat = 18446744073709551615 from rfl]
    omega

theorem extends_of_room {history : History} {r : Registry} (run : Run history r) (now : Instant)
    {s : Silence} (hs : s.id = .unset) (room : r.lastId.value.toNat + 1 < UInt64.size) :
    r.Extends history (r.add now s) ⟨.ofNat (r.lastId.value.toNat + 1)⟩ := by
  have hvalue := UInt64.toNat_ofNat_of_lt' room
  have hbeyond (id : SilenceId) (hle : id.value.toNat ≤ r.lastId.value.toNat) :
      id < ⟨.ofNat (r.lastId.value.toNat + 1)⟩ := by
    refine UInt64.lt_iff_toNat_lt.2 ?_
    rw [hvalue]
    exact Nat.lt_succ_of_le hle
  have hanswer : (r.add now s).answer = .ok ⟨.ofNat (r.lastId.value.toNat + 1)⟩ := by
    rw [answer_add_of_unset now hs, if_pos room]
  have hfree : r.records[(⟨.ofNat (r.lastId.value.toNat + 1)⟩ : SilenceId)]? = none := by
    by_contra hthere
    obtain ⟨stored, hr⟩ := Option.ne_none_iff_exists'.1 hthere
    have hle := (run.numbered _ stored hr).2.2
    dsimp only at hle
    rw [hvalue] at hle
    exact Nat.not_succ_le_self _ hle
  refine ⟨hanswer, fun earlier hmem => hbeyond earlier ?_,
    fun m hm client t answer hcall => hbeyond t.id (run.supplied_le hm hcall), hfree,
    fun other stored hr => ?_⟩
  · rw [run.lastId_eq]
    exact le_highest hmem
  · rw [answer_add] at hanswer
    cases hassign : r.assignId s with
    | error e => rw [hassign] at hanswer; cases hanswer
    | ok assigned =>
      rw [hassign] at hanswer
      have hid : assigned.1 = ⟨.ofNat (r.lastId.value.toNat + 1)⟩ := Except.ok.inj hanswer
      have hne : assigned.1 ≠ other := by
        rintro rfl
        rw [hid, hfree] at hr
        cases hr
      rw [registry_add, hassign]
      dsimp only
      rw [records_put, OrderedMap.getElem?_insert, if_neg hne, hr]

end Registry

/-- The highest id so far is the maximum of all ids that additions have answered, it never falls,
and every record is under its own id, which is set and not above it. An addition that is to find an
id goes beyond all that was there, unless the last id was answered before: then no id is left for
it. Nothing is updated or deleted under the id that is not set. All this holds again after a load,
which is a run of additions. -/
theorem lastId_eq_highest_added {history : History} {r : Registry} (run : Run history r) :
    r.lastId.value.toNat = highest history.added ∧
    (∀ (past : History) (before : Registry), past <:+ history → Run past before →
      before.lastId.value.toNat ≤ r.lastId.value.toNat) ∧
    r.Numbered ∧
    (∀ (now : Instant) (s : Silence), s.id = .unset →
      (SilenceId.last ∈ history.added →
        (r.add now s).answer = .error (.idsExhausted .last) ∧ (r.add now s).registry = r) ∧
      (SilenceId.last ∉ history.added → ∃ id, r.Extends history (r.add now s) id)) ∧
    (∀ (now : Instant) (s : Silence), s.id = .unset →
      (r.update now s).answer = .error (.notFound .unset)) ∧
    (r.delete .unset).answer = .error (.notFound .unset) ∧
    ∀ (client : Nat) (now : Instant) (clock : Nat → Instant) (path : String)
      (document : Except Disk.Fault Bytes), ∃ additions : History,
      (∀ m ∈ additions, ∃ s answer, m.move = .call client (.add s answer)) ∧
      Run (additions ++ history) (r.load now clock path document).registry ∧
      (r.load now clock path document).registry.lastId.value.toNat =
        highest (additions.added ++ history.added) := by
  have hunset : r.records[SilenceId.unset]? = none := by
    by_contra hthere
    obtain ⟨stored, hr⟩ := Option.ne_none_iff_exists'.1 hthere
    exact (run.numbered _ stored hr).2.1 rfl
  refine ⟨run.lastId_eq, fun past before h run' => run.lastId_le run' h, run.numbered,
    fun now s hs => ⟨fun hmem => ?_, fun hmem => ?_⟩, fun now s hs => ?_, ?_,
    fun client now clock path document => ?_⟩
  · have hfull := (Registry.last_mem_added_iff run).1 hmem
    have hanswer : (r.add now s).answer = .error (.idsExhausted .last) := by
      rw [Registry.answer_add_of_unset now hs, if_neg hfull]
    refine ⟨hanswer, ?_⟩
    rw [Registry.answer_add] at hanswer
    rw [Registry.registry_add]
    cases hassign : r.assignId s with
    | error e => rfl
    | ok assigned => rw [hassign] at hanswer; cases hanswer
  · have hroom := Decidable.not_not.1 (mt (Registry.last_mem_added_iff run).2 hmem)
    exact ⟨_, Registry.extends_of_room run now hs hroom⟩
  · rw [Registry.answer_update, hs, hunset]
    rfl
  · rw [Registry.answer_delete, hunset]
    rfl
  · obtain ⟨additions, hadditions, hrun⟩ := run.load client now clock path document
    refine ⟨additions, fun m hm => (hadditions m hm).2, hrun, ?_⟩
    rw [hrun.lastId_eq, History.added_append]

/-- The last id was given to a silence that is gone. No id is left, and that stays so. -/
theorem lastId_eq_highest_added_after_last :
    ∃ (history : History) (r : Registry), Run history r ∧ r.size = 0 ∧ r.lastId = .last ∧
      history.added = [.last, ⟨7⟩] ∧
      (r.add default (.new default "ops" default)).answer = .error (.idsExhausted .last) := by
  let x : Silence := .new default "ops" default
  have added := (Run.nil.add 0 default (x.withId ⟨7⟩)).add 1 default (x.withId .last)
  have run := (added.delete 0 default ⟨7⟩).delete 1 default .last
  refine ⟨_, _, run, by decide +kernel, by decide +kernel, by decide +kernel, ?_⟩
  exact (((lastId_eq_highest_added run).2.2.2.1 default _ rfl).1 (by decide +kernel)).1

end AlertSilences
