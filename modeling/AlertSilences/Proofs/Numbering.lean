import AlertSilences.Proofs.HighWater

/-! Additions that are to find an id by themselves, by any number of clients, with anything else in
between. In the order in which they were carried out they get the ids that follow the highest one,
without a gap, and when those are used up all others fail. -/

namespace AlertSilences

open SilenceId

def Move.addition? : Move → Option (Nat × Except Failure SilenceId)
  | .call client (.add _ answer) => some (client, answer)
  | _ => none

namespace History

def additions : History → List (Nat × Except Failure SilenceId)
  | [] => []
  | m :: past => additions past ++ m.move.addition?.toList

/-- The ids that the additions of one client answered, in order. -/
def givenTo (client : Nat) (history : History) : List SilenceId :=
  (history.additions.filter fun e => e.1 == client).filterMap fun e => e.2.toOption

/-- No addition comes with an id of its own. -/
def Unassigned (history : History) : Prop :=
  ∀ m ∈ history, ∀ (client : Nat) (s : Silence) (answer : Except Failure SilenceId),
    m.move = .call client (.add s answer) → s.id = .unset

theorem Unassigned.of_cons {m : Moment} {past : History} (h : Unassigned (m :: past)) :
    past.Unassigned :=
  fun a ha => h a (List.mem_cons_of_mem m ha)

end History

/-- How many ids follow the one numbered `first`. -/
def idsAfter (first : Nat) : Nat := UInt64.size - 1 - first

/-- The answers to `count` additions with no ids of their own where the highest id is `first`: the
ids that follow, as long as there are any. -/
def answersFrom (first count : Nat) : List (Except Failure SilenceId) :=
  (List.range' (first + 1) (min count (idsAfter first))).map (fun n => .ok ⟨.ofNat n⟩) ++
    List.replicate (count - idsAfter first) (.error (.idsExhausted .last))

theorem answersFrom_succ_of_room {first count : Nat} (h : first + count + 1 < UInt64.size) :
    answersFrom first (count + 1) =
      answersFrom first count ++ [.ok ⟨.ofNat (first + count + 1)⟩] := by
  have hroom : count + 1 ≤ idsAfter first := by
    rw [idsAfter]
    omega
  rw [answersFrom, answersFrom, Nat.min_eq_left hroom, Nat.min_eq_left (Nat.le_of_succ_le hroom),
    Nat.sub_eq_zero_of_le hroom, Nat.sub_eq_zero_of_le (Nat.le_of_succ_le hroom),
    List.range'_concat, List.map_append, Nat.one_mul, Nat.add_right_comm first 1 count]
  simp only [List.map_cons, List.map_nil, List.replicate_zero, List.append_nil]

theorem answersFrom_succ_of_full {first count : Nat} (h : ¬first + count + 1 < UInt64.size) :
    answersFrom first (count + 1) = answersFrom first count ++ [.error (.idsExhausted .last)] := by
  have hfull : idsAfter first ≤ count := by
    rw [idsAfter]
    omega
  rw [answersFrom, answersFrom, Nat.min_eq_right hfull, Nat.min_eq_right (Nat.le_succ_of_le hfull),
    Nat.succ_sub hfull, List.replicate_succ', List.append_assoc]

/-- One more answer, where `highest` is the highest id after the answers so far. -/
theorem answersFrom_succ {first count highest highest' : Nat} {answer : Except Failure SilenceId}
    (hhighest : highest = first + min count (idsAfter first))
    (h : highest + 1 < UInt64.size ∧ answer = .ok ⟨.ofNat (highest + 1)⟩ ∧
        highest' = highest + 1 ∨
      ¬highest + 1 < UInt64.size ∧ answer = .error (.idsExhausted .last) ∧ highest' = highest) :
    answersFrom first (count + 1) = answersFrom first count ++ [answer] ∧
      highest' = first + min (count + 1) (idsAfter first) := by
  subst hhighest
  rcases h with ⟨hroom, rfl, rfl⟩ | ⟨hfull, rfl, rfl⟩
  · have hleft : count + 1 ≤ idsAfter first := by
      rw [idsAfter] at hroom ⊢
      omega
    rw [Nat.min_eq_left (Nat.le_of_succ_le hleft)] at hroom ⊢
    refine ⟨answersFrom_succ_of_room hroom, ?_⟩
    rw [Nat.min_eq_left hleft, Nat.add_assoc]
  · have hnone : idsAfter first ≤ count := by
      rw [idsAfter] at hfull ⊢
      omega
    refine ⟨answersFrom_succ_of_full ?_, ?_⟩
    · rw [idsAfter] at hnone
      omega
    · rw [Nat.min_eq_right hnone, Nat.min_eq_right (Nat.le_succ_of_le hnone)]

/-- The ids among the answers only grow. -/
theorem pairwise_answersFrom (first count : Nat) :
    ((answersFrom first count).filterMap Except.toOption).Pairwise (· < ·) := by
  have hids : (answersFrom first count).filterMap Except.toOption =
      (List.range' (first + 1) (min count (idsAfter first))).map fun n => ⟨.ofNat n⟩ := by
    rw [answersFrom, List.filterMap_append, List.filterMap_replicate_of_none rfl, List.append_nil,
      List.filterMap_map]
    exact congrFun List.filterMap_eq_map' _
  rw [hids, List.pairwise_map]
  have hfits {n : Nat} (hn : n ∈ List.range' (first + 1) (min count (idsAfter first))) :
      (UInt64.ofNat n).toNat = n := by
    rw [List.mem_range'_1, idsAfter] at hn
    refine UInt64.toNat_ofNat_of_lt' ?_
    omega
  refine List.Pairwise.imp_of_mem (fun {a b} ha hb hlt => ?_) (List.pairwise_lt_range' 1)
  refine UInt64.lt_iff_toNat_lt.2 ?_
  rw [hfits ha, hfits hb]
  exact hlt

theorem givenTo_sublist (client : Nat) (history : History) :
    (history.givenTo client).Sublist
      ((history.additions.map Prod.snd).filterMap Except.toOption) := by
  rw [List.filterMap_map]
  exact List.filter_sublist.filterMap _

namespace Registry

/-- Whatever is no addition leaves the highest id and the list of additions as they are. -/
theorem lastId_of_step_of_none {r r' : Registry} {m : Moment} (h : r.Step r' m)
    (hm : m.move.addition? = none) : r'.lastId.value.toNat = r.lastId.value.toNat := by
  have hadded : m.move.added? = none := by
    unfold Move.added?
    split
    · next h => rw [h] at hm; cases hm
    · rfl
  rw [lastId_of_step h, hadded]
  exact Nat.zero_max _

/-- An addition with no id of its own gets the next one, or it fails as none is left. -/
theorem answers_add_of_unset {now : Instant} {r r' : Registry} {log : Log} {s : Silence}
    {answer : Except Failure SilenceId} (h : r.Answers now r' log (.add s answer))
    (hs : s.id = .unset) :
    r.lastId.value.toNat + 1 < UInt64.size ∧
        answer = .ok ⟨.ofNat (r.lastId.value.toNat + 1)⟩ ∧
        r'.lastId.value.toNat = r.lastId.value.toNat + 1 ∨
      ¬r.lastId.value.toNat + 1 < UInt64.size ∧ answer = .error (.idsExhausted .last) ∧
        r'.lastId.value.toNat = r.lastId.value.toNat := by
  have hlastId := lastId_of_answers 0 h
  have hanswer : (r.add now s).answer = answer := congrArg Outcome.answer h
  rw [answer_add_of_unset now hs] at hanswer
  split_ifs at hanswer with hroom
  · subst hanswer
    refine .inl ⟨hroom, rfl, hlastId.trans ?_⟩
    change max (highest [⟨.ofNat (r.lastId.value.toNat + 1)⟩]) r.lastId.value.toNat = _
    rw [highest_singleton, UInt64.toNat_ofNat_of_lt' hroom]
    exact Nat.max_eq_left (Nat.le_succ _)
  · subst hanswer
    exact .inr ⟨hroom, rfl, hlastId.trans (Nat.zero_max _)⟩

/-- An addition that fails changes nothing. -/
theorem eq_of_answers_error {now : Instant} {r r' : Registry} {log : Log} {s : Silence}
    {e : Failure} (h : r.Answers now r' log (.add s (.error e))) : r' = r := by
  have hanswer : (r.add now s).answer = .error e := congrArg Outcome.answer h
  have hregistry : (r.add now s).registry = r' := congrArg Outcome.registry h
  rw [answer_add] at hanswer
  rw [registry_add] at hregistry
  cases hassign : r.assignId s with
  | error e' =>
    rw [hassign] at hregistry
    exact hregistry.symm
  | ok assigned =>
    rw [hassign] at hanswer
    cases hanswer

end Registry

/-- What the additions have answered so far, and the highest id now. -/
theorem Run.additions_eq {past later : History} {before r : Registry} (start : Run past before)
    (run : Run (later ++ past) r) (auto : later.Unassigned) :
    later.additions.map Prod.snd =
        answersFrom before.lastId.value.toNat later.additions.length ∧
      r.lastId.value.toNat = before.lastId.value.toNat +
        min later.additions.length (idsAfter before.lastId.value.toNat) := by
  induction later generalizing r with
  | nil =>
    obtain rfl := start.unique run
    refine ⟨?_, ?_⟩
    · rw [answersFrom, History.additions, List.length_nil, Nat.zero_min, Nat.zero_sub]
      rfl
    · rw [History.additions, List.length_nil, Nat.zero_min, Nat.add_zero]
  | cons m later ih =>
    obtain _ | ⟨run', step⟩ := run
    obtain ⟨hanswers, hlastId⟩ := ih run' auto.of_cons
    rw [History.additions]
    cases hm : m.move.addition? with
    | none =>
      rw [Registry.lastId_of_step_of_none step hm, hlastId, Option.toList_none, List.append_nil]
      exact ⟨hanswers, rfl⟩
    | some e =>
      rcases Registry.answers_or_work_of_step step with ⟨client, call, hcall, ha⟩ | ⟨hwork, _⟩
      · cases call with
        | add s answer =>
          rw [hcall] at hm
          obtain rfl := Option.some.inj hm
          have hs := auto m List.mem_cons_self client s answer hcall
          have hnext := answersFrom_succ hlastId (Registry.answers_add_of_unset ha hs)
          rw [Option.toList_some, List.map_append, List.length_append, hanswers]
          exact ⟨hnext.1.symm, hnext.2⟩
        | _ => rw [hcall] at hm; cases hm
      · rw [hwork] at hm
        cases hm

/-- Additions with no ids of their own, of any clients and with anything else in between, get the
ids that follow the highest one, each once and in order, as long as there are any; all further ones
fail and change nothing. Each client sees its own ids grow. -/
theorem additions_gap_free {past later : History} {before r : Registry} (start : Run past before)
    (run : Run (later ++ past) r) (auto : later.Unassigned) :
    later.additions.map Prod.snd =
        answersFrom before.lastId.value.toNat later.additions.length ∧
    (∀ client : Nat, (later.givenTo client).Pairwise (· < ·)) ∧
    ∀ (newer older : History) (m : Moment) (client : Nat) (s : Silence) (e : Failure)
      (r₁ r₂ : Registry), later = newer ++ m :: older →
      m.move = .call client (.add s (.error e)) →
      Run (older ++ past) r₁ → Run (m :: older ++ past) r₂ → r₂ = r₁ := by
  have hanswers := (start.additions_eq run auto).1
  refine ⟨hanswers, fun client => ?_, ?_⟩
  · have hall := pairwise_answersFrom before.lastId.value.toNat later.additions.length
    rw [← hanswers] at hall
    exact hall.sublist (givenTo_sublist client later)
  · rintro newer older m client s e r₁ r₂ - hm run₁ (_ | ⟨run₂, step⟩)
    obtain rfl := run₁.unique run₂
    rcases Registry.answers_or_work_of_step step with ⟨_, _, hcall, ha⟩ | ⟨hwork, -⟩
    · obtain ⟨rfl, rfl⟩ := Move.call.inj (hm.symm.trans hcall)
      exact Registry.eq_of_answers_error ha
    · cases hm.symm.trans hwork

/-- One id is left for three additions of two clients, although the silence that has it is gone
before the second. -/
theorem additions_gap_free_at_the_last_id :
    ∃ (past later : History) (before r : Registry), Run past before ∧ Run (later ++ past) r ∧
      later.Unassigned ∧ before.lastId.value.toNat + 1 = SilenceId.last.value.toNat ∧
      later.additions.map Prod.snd = [.ok .last, .error (.idsExhausted .last),
        .error (.idsExhausted .last)] ∧ r.size = 1 := by
  let x : Silence := .new default "ops" default
  let r₀ := (Registry.empty.add default (x.withId ⟨18446744073709551614⟩)).registry
  let r₁ := (r₀.add default x).registry
  let r₂ := (r₁.delete .last).registry
  let r₃ := (r₂.add default x).registry
  let later : History :=
    [⟨default, .call 0 (.add x (r₃.add default x).answer), (r₃.add default x).log⟩,
      ⟨default, .call 1 (.add x (r₂.add default x).answer), (r₂.add default x).log⟩,
      ⟨default, .call 1 (.delete .last (r₁.delete .last).answer), (r₁.delete .last).log⟩,
      ⟨default, .call 0 (.add x (r₀.add default x).answer), (r₀.add default x).log⟩]
  have start := Run.nil.add 0 default (x.withId ⟨18446744073709551614⟩)
  have run : Run (later ++ _) _ :=
    (((start.add 0 default x).delete 1 default .last).add 1 default x).add 0 default x
  have auto : later.Unassigned := by
    intro m hm client s answer hcall
    simp only [later, List.mem_cons, List.not_mem_nil, or_false] at hm
    rcases hm with rfl | rfl | rfl | rfl <;> cases hcall <;> rfl
  have hanswers := (additions_gap_free start run auto).1
  refine ⟨_, later, _, _, start, run, auto, by decide +kernel, hanswers.trans ?_,
    by decide +kernel⟩
  decide +kernel

end AlertSilences
