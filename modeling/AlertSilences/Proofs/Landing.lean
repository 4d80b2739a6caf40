import AlertSilences.Proofs.Failures

/-! Loading a document into a registry that may hold records already. The silences of the document
land one after another, each on the id it brings or on the next one after the highest so far, until
one finds no next id. What has landed last on an id is there afterwards, with a new action; whatever
nothing has landed on is as it was. -/

namespace AlertSilences

open SilenceId

/-- The id on which a silence lands where `highest` is the highest id so far. -/
def landing? (highest : Nat) (s : Silence) : Option SilenceId :=
  if s.id ≠ .unset then some s.id
  else if highest + 1 < UInt64.size then some ⟨.ofNat (highest + 1)⟩
  else none

/-- The silences of a list that land, under the ids on which they land. Every one raises the highest
id, and the first that finds no id is the end. -/
def landed : Nat → List Silence → List Silence
  | _, [] => []
  | highest, s :: rest =>
    match landing? highest s with
    | none => []
    | some id => { s with id } :: landed (max highest id.value.toNat) rest

def lastOn? (landed : List Silence) (id : SilenceId) : Option Silence :=
  landed.reverse.find? fun s => s.id = id

theorem lastOn?_cons (s : Silence) (rest : List Silence) (id : SilenceId) :
    lastOn? (s :: rest) id = (lastOn? rest id).or (if s.id = id then some s else none) := by
  rw [lastOn?, List.reverse_cons, List.find?_append, lastOn?]
  by_cases h : s.id = id <;> simp [h]

theorem length_landed_le (highest : Nat) (xs : List Silence) :
    (landed highest xs).length ≤ xs.length := by
  induction xs generalizing highest with
  | nil => exact Nat.le_refl _
  | cons x xs ih =>
    rw [landed]
    split
    · exact Nat.zero_le _
    · exact Nat.succ_le_succ (ih _)

/-- A list that does not land as a whole ends at a silence that was to find an id when the last one
was taken. -/
theorem stop_of_length_landed_lt {first : Nat} {xs : List Silence}
    (hfirst : first < UInt64.size) (h : (landed first xs).length < xs.length) :
    ∃ x, xs[(landed first xs).length]? = some x ∧ x.id = .unset ∧
      max first (highest ((landed first xs).map SilenceOf.id)) = UInt64.size - 1 := by
  induction xs generalizing first with
  | nil => exact absurd h (Nat.not_lt_zero _)
  | cons x xs ih =>
    rw [landed] at h ⊢
    cases hland : landing? first x with
    | none =>
      unfold landing? at hland
      split_ifs at hland with hset hroom
      refine ⟨x, rfl, Decidable.not_not.1 hset, ?_⟩
      rw [List.map_nil, SilenceId.highest, List.map_nil, List.foldr_nil, Nat.max_zero]
      omega
    | some id =>
      simp only [hland, List.length_cons, Nat.succ_lt_succ_iff] at h
      have hfirst' : max first id.value.toNat < UInt64.size :=
        Nat.max_lt.2 ⟨hfirst, UInt64.toNat_lt _⟩
      obtain ⟨y, hy, hunset, hfull⟩ := ih hfirst' h
      refine ⟨y, hy, hunset, ?_⟩
      rw [← hfull, List.map_cons, highest_cons, Nat.max_assoc]

/-- A silence that is to find an id lands on the one after the highest of all that were there and
that have landed before it. -/
theorem id_of_landed {first : Nat} {xs : List Silence} {i : Nat} {x y : Silence}
    (hx : xs[i]? = some x) (hy : (landed first xs)[i]? = some y) :
    y = { x with id := y.id } ∧ (x.id ≠ .unset → y.id = x.id) ∧
      (x.id = .unset → y.id.value.toNat =
        max first (highest (((landed first xs).take i).map SilenceOf.id)) + 1) := by
  induction xs generalizing first i with
  | nil => cases hx
  | cons s xs ih =>
    rw [landed] at hy ⊢
    cases hland : landing? first s with
    | none =>
      rw [hland] at hy
      cases hy
    | some id =>
      simp only [hland] at hy ⊢
      cases i with
      | zero =>
        cases hx
        cases hy
        refine ⟨rfl, fun hset => ?_, fun hunset => ?_⟩
        · rw [landing?, if_pos hset] at hland
          exact (Option.some.inj hland).symm
        · rw [landing?, if_neg (not_not.2 hunset)] at hland
          split_ifs at hland with hroom
          rw [← Option.some.inj hland, List.take_zero, List.map_nil]
          exact (UInt64.toNat_ofNat_of_lt' hroom).trans (congrArg (· + 1) (Nat.max_zero _).symm)
      | succ i =>
        obtain ⟨hsame, hset, hunset⟩ := ih hx hy
        refine ⟨hsame, hset, fun h => ?_⟩
        rw [hunset h, List.take_succ_cons, List.map_cons, highest_cons, Nat.max_assoc]

/-- A silence that found its id by itself lands above everything that was there. -/
theorem lt_of_landed_unset {first : Nat} {xs : List Silence} {i : Nat} {x y : Silence}
    (hx : xs[i]? = some x) (hy : (landed first xs)[i]? = some y) (hunset : x.id = .unset) :
    first < y.id.value.toNat ∧
      ∀ j z, j < i → (landed first xs)[j]? = some z → z.id < y.id := by
  have hid := (id_of_landed hx hy).2.2 hunset
  refine ⟨hid ▸ Nat.lt_succ_of_le (Nat.le_max_left _ _), fun j z hj hz => ?_⟩
  have hmem : z.id ∈ ((landed first xs).take i).map SilenceOf.id :=
    List.mem_map_of_mem (List.mem_of_getElem? ((List.getElem?_take_of_lt hj).trans hz))
  refine UInt64.lt_iff_toNat_lt.2 ?_
  rw [hid]
  exact Nat.lt_succ_of_le (Nat.le_trans (le_highest hmem) (Nat.le_max_right _ _))

namespace Registry

/-- The actions for silences that land now, the first of them under the number `issued`. -/
def actionsFor (now : Instant) (issued : Nat) (landed : List Silence) : List Pending :=
  landed.mapIdx fun i s =>
    ⟨max now.toNanos s.endsAt.toNanos, ⟨s.id, ⟨issued + i, s.endsAt⟩⟩⟩

theorem actionsFor_cons (now : Instant) (issued : Nat) (s : Silence) (rest : List Silence) :
    actionsFor now issued (s :: rest) =
      actionsFor now issued [s] ++ actionsFor now (issued + 1) rest := by
  simp only [actionsFor, List.mapIdx_cons, List.mapIdx_nil, List.singleton_append, Nat.add_assoc,
    Nat.add_comm 1]

/-- What a registry has become when some silences have landed in it: on every id the last one, armed
anew for its end, and all else with the records and actions that were there. -/
structure Loaded (now : Instant) (r : Registry) (landed : List Silence) (loaded : Registry) :
    Prop where
  lastId : loaded.lastId.value.toNat =
    max r.lastId.value.toNat (highest (landed.map SilenceOf.id))
  placed : ∀ (id : SilenceId) (s : Silence), lastOn? landed id = some s →
    ∃ handle, loaded.records[id]? = some ⟨s, handle⟩ ∧ handle.endsAt = s.endsAt ∧
      r.scheduler.actions.issued ≤ handle.index ∧ loaded.isArmed handle = true
  kept : ∀ id : SilenceId, lastOn? landed id = none → loaded.records[id]? = r.records[id]?
  keptArmed : ∀ (id : SilenceId) (stored : Stored), lastOn? landed id = none →
    r.records[id]? = some stored → loaded.isArmed stored.handle = r.isArmed stored.handle
  replaced : ∀ (id : SilenceId) (stored : Stored), lastOn? landed id ≠ none →
    r.records[id]? = some stored → loaded.isArmed stored.handle = false
  stopped : ∀ h : Handle, r.isArmed h = false → loaded.isArmed h = false
  issued : loaded.scheduler.actions.issued = r.scheduler.actions.issued + landed.length
  pending : loaded.pending = r.pending ++ actionsFor now r.scheduler.actions.issued landed

theorem Loaded.refl (now : Instant) (r : Registry) : r.Loaded now [] r where
  lastId := (Nat.max_zero _).symm
  placed _ _ h := by cases h
  kept _ _ := rfl
  keptArmed _ _ _ _ := rfl
  replaced _ _ h _ := absurd rfl h
  stopped _ h := h
  issued := rfl
  pending := (List.append_nil _).symm

/-- First one silence lands, then others. -/
theorem Loaded.cons {now : Instant} {r r' loaded : Registry} {s : Silence} {rest : List Silence}
    (first : r.Loaded now [s] r') (more : r'.Loaded now rest loaded) :
    r.Loaded now (s :: rest) loaded := by
  have hone (id : SilenceId) : lastOn? [s] id = if s.id = id then some s else none :=
    lastOn?_cons s [] id
  refine ⟨?_, fun id t ht => ?_, fun id ht => ?_, fun id stored ht hr => ?_,
    fun id stored ht hr => ?_, fun h hh => more.stopped h (first.stopped h hh), ?_, ?_⟩
  · rw [more.lastId, first.lastId, List.map_cons, List.map_cons, List.map_nil, highest_singleton,
      highest_cons, Nat.max_assoc]
  · rw [lastOn?_cons, Option.or_eq_some_iff] at ht
    rcases ht with ht | ⟨hnone, ht⟩
    · obtain ⟨handle, hrecord, hends, hnew, harmed⟩ := more.placed id t ht
      exact ⟨handle, hrecord, hends, Nat.le_trans (first.issued ▸ Nat.le_add_right _ _) hnew, harmed⟩
    · obtain ⟨handle, hrecord, hends, hnew, harmed⟩ := first.placed id t ((hone id).trans ht)
      exact ⟨handle, (more.kept id hnone).trans hrecord, hends, hnew,
        (more.keptArmed id _ hnone hrecord).trans harmed⟩
  · rw [lastOn?_cons, Option.or_eq_none_iff] at ht
    exact (more.kept id ht.1).trans (first.kept id ((hone id).trans ht.2))
  · rw [lastOn?_cons, Option.or_eq_none_iff] at ht
    have hfirst := (hone id).trans ht.2
    rw [more.keptArmed id stored ht.1 ((first.kept id hfirst).trans hr),
      first.keptArmed id stored hfirst hr]
  · by_cases hfirst : lastOn? [s] id = none
    · have hmore : lastOn? rest id ≠ none := by
        intro hnone
        rw [lastOn?_cons, hnone, ← hone, hfirst] at ht
        exact ht rfl
      exact more.replaced id stored hmore ((first.kept id hfirst).trans hr)
    · exact more.stopped _ (first.replaced id stored hfirst hr)
  · rw [more.issued, first.issued, List.length_singleton, List.length_cons, Nat.add_assoc,
      Nat.add_comm 1]
  · rw [more.pending, first.pending, first.issued, List.length_singleton, List.append_assoc,
      ← actionsFor_cons]

/-- An addition takes the id on which its silence lands. -/
theorem assignId_eq_landing? (r : Registry) (s : Silence) :
    r.assignId s = match landing? r.lastId.value.toNat s with
      | some id => .ok (id, ⟨.ofNat (max r.lastId.value.toNat id.value.toNat)⟩)
      | none => .error (.idsExhausted ⟨.ofNat r.lastId.value.toNat⟩) :=
  assignId_eq r s

/-- An addition that finds no id leaves all as it is. -/
theorem add_of_not_landing? {r : Registry} (now : Instant) {s : Silence}
    (h : landing? r.lastId.value.toNat s = none) :
    r.add now s = ⟨.error (.idsExhausted .last), r, []⟩ := by
  refine harmless_add now s r _ ?_
  unfold landing? at h
  split_ifs at h with hset hroom
  rw [answer_add_of_unset now (not_not.1 hset), if_neg hroom]

/-- An addition that finds an id lets its silence land there. -/
theorem loaded_of_landing? {r : Registry} (coupled : r.Coupled) (now : Instant) {s : Silence}
    {id : SilenceId} (h : landing? r.lastId.value.toNat s = some id) :
    (r.add now s).answer = .ok id ∧ r.Loaded now [{ s with id }] (r.add now s).registry := by
  have hassign := assignId_eq_landing? r s
  rw [h] at hassign
  have hanswer : (r.add now s).answer = .ok id := by
    rw [answer_add, hassign]
    rfl
  have hanswers := r.answers_add now s
  have hlastId := lastId_of_answers 0 hanswers
  rw [hanswer] at hlastId
  refine ⟨hanswer, ?_⟩
  rw [registry_add, hassign] at hlastId ⊢
  dsimp only at hlastId ⊢
  set before : Registry :=
    { r with lastId := ⟨.ofNat (max r.lastId.value.toNat id.value.toNat)⟩ }
  have listens : before.scheduler.phase.listens = true :=
    Phase.listens_of_working coupled.sound.working
  have hrecords := records_put now { s with id } before
  have harmed (g : Handle) := isArmed_put listens now { s with id } g
  have hone (other : SilenceId) : lastOn? [{ s with id }] other =
      if id = other then some { s with id } else none := lastOn?_cons _ [] other
  refine ⟨?_, fun other t ht => ?_, fun other ht => ?_, fun other stored ht hr => ?_,
    fun other stored ht hr => ?_, fun g hg => ?_, issued_put listens now { s with id },
    pending_put listens now { s with id }⟩
  · rw [hlastId, Nat.max_comm]
    rfl
  · rw [hone] at ht
    split_ifs at ht with hid
    cases ht
    refine ⟨before.nextHandle s.endsAt, ?_, rfl, Nat.le_refl _, ?_⟩
    · rw [hrecords, OrderedMap.getElem?_insert, if_pos hid]
    -- the new action was not there before, so it is not the one that is stopped
    · rw [harmed, isArmed_removeRecord]
      refine ⟨coupled.fresh _ (Nat.le_refl _), fun stored hr => ?_⟩
      exact Nat.ne_of_lt (coupled.stored_lt _ stored hr)
  · rw [hone] at ht
    split_ifs at ht with hid
    rw [hrecords, OrderedMap.getElem?_insert, if_neg hid]
  · rw [hone] at ht
    split_ifs at ht with hid
    rw [harmed, Bool.eq_iff_iff, isArmed_removeRecord]
    refine and_iff_left fun stored' hr' heq => ?_
    exact hid (coupled.stored_unique _ _ stored' stored hr' hr heq)
  · rw [hone] at ht
    split_ifs at ht with hid
    · rw [harmed, Bool.eq_false_iff, ne_eq, isArmed_removeRecord]
      exact fun hall => hall.2 stored (hid ▸ hr) rfl
    · exact absurd rfl ht
  · rw [harmed, Bool.eq_false_iff, ne_eq, isArmed_removeRecord]
    exact fun hall => Bool.eq_false_iff.1 hg hall.1

/-- Additions one after another let their silences land, up to the first that finds no id. -/
theorem loaded_of_inTurn (now : Instant) (xs : List Silence) {history : History} {r : Registry}
    (run : Run history r) :
    (r.inTurn (add now) xs).answer =
        (if (landed r.lastId.value.toNat xs).length = xs.length then
          .ok ((landed r.lastId.value.toNat xs).map SilenceOf.id)
        else .error (.idsExhausted .last)) ∧
      r.Loaded now (landed r.lastId.value.toNat xs) (r.inTurn (add now) xs).registry ∧
      ∃ log, r.inTurn (add now) (xs.take (landed r.lastId.value.toNat xs).length) =
        ⟨.ok ((landed r.lastId.value.toNat xs).map SilenceOf.id),
          (r.inTurn (add now) xs).registry, log⟩ := by
  induction xs generalizing history r with
  | nil => exact ⟨rfl, .refl now r, [], rfl⟩
  | cons s rest ih =>
    cases hland : landing? r.lastId.value.toNat s with
    | none =>
      have hlanded : landed r.lastId.value.toNat (s :: rest) = [] := by rw [landed, hland]
      rw [inTurn_cons, add_of_not_landing? now hland, hlanded]
      exact ⟨rfl, .refl now r, [], rfl⟩
    | some id =>
      obtain ⟨hanswer, hfirst⟩ := loaded_of_landing? run.coupled now hland
      have hlastId : (r.add now s).registry.lastId.value.toNat =
          max r.lastId.value.toNat id.value.toNat := by
        rw [hfirst.lastId]
        exact congrArg (max _) (highest_singleton id)
      obtain ⟨hmore, hloaded, log, htaken⟩ := ih (run.add 0 now s)
      rw [hlastId] at hmore hloaded htaken
      have hlanded : landed r.lastId.value.toNat (s :: rest) =
          { s with id } :: landed (max r.lastId.value.toNat id.value.toNat) rest := by
        rw [landed, hland]
      rw [inTurn_cons, hlanded, List.length_cons, List.length_cons, List.take_succ_cons,
        inTurn_cons]
      cases hadd : r.add now s with
      | mk answer r' told =>
        rw [hadd] at hanswer hfirst hmore hloaded htaken
        cases hanswer
        dsimp only at hmore hloaded htaken ⊢
        refine ⟨?_, hfirst.cons hloaded, told ++ log, ?_⟩
        · rw [hmore]
          simp only [Nat.succ_inj]
          split_ifs <;> rfl
        · rw [htaken]
          rfl

/-- How silences have landed in a registry: in order, each on its own id, or if it has none on the
one after the highest so far, where nothing is replaced. -/
structure Landing (r : Registry) (xs landed : List Silence) : Prop where
  length_le : landed.length ≤ xs.length
  same : ∀ (i : Nat) (x y : Silence), xs[i]? = some x → landed[i]? = some y →
    y = { x with id := y.id }
  own : ∀ (i : Nat) (x y : Silence), xs[i]? = some x → landed[i]? = some y → x.id ≠ .unset →
    y.id = x.id
  next : ∀ (i : Nat) (x y : Silence), xs[i]? = some x → landed[i]? = some y → x.id = .unset →
    y.id.value.toNat =
      max r.lastId.value.toNat (highest ((landed.take i).map SilenceOf.id)) + 1
  free : ∀ (i : Nat) (x y : Silence), xs[i]? = some x → landed[i]? = some y → x.id = .unset →
    r.records[y.id]? = none ∧ ∀ (j : Nat) (z : Silence), j < i → landed[j]? = some z → z.id < y.id
  stop : landed.length < xs.length → ∃ x, xs[landed.length]? = some x ∧ x.id = .unset ∧
    max r.lastId.value.toNat (highest (landed.map SilenceOf.id)) = UInt64.size - 1

theorem landing_landed {history : History} {r : Registry} (run : Run history r)
    (xs : List Silence) : r.Landing xs (landed r.lastId.value.toNat xs) where
  length_le := length_landed_le _ xs
  same i x y hx hy := (id_of_landed hx hy).1
  own i x y hx hy := (id_of_landed hx hy).2.1
  next i x y hx hy := (id_of_landed hx hy).2.2
  free i x y hx hy hunset := by
    obtain ⟨habove, hearlier⟩ := lt_of_landed_unset hx hy hunset
    refine ⟨Option.eq_none_iff_forall_not_mem.2 fun stored hr => ?_, hearlier⟩
    exact Nat.not_lt_of_le (run.numbered _ stored hr).2.2 habove
  stop := stop_of_length_landed_lt (UInt64.toNat_lt _)

theorem load_eq_inTurn (r : Registry) (now : Instant) {clock : Nat → Instant} (path : String)
    {bytes : Bytes} {xs : List Silence} (h : Silence.decodeAll clock bytes = .ok xs) :
    (r.load now clock path (.ok bytes)).answer =
        (r.inTurn (add now) xs).answer.map List.length ∧
      (r.load now clock path (.ok bytes)).registry = (r.inTurn (add now) xs).registry := by
  unfold load
  simp only [h]
  cases hout : r.inTurn (add now) xs with
  | mk answer r' log => cases answer <;> exact ⟨rfl, rfl⟩

end Registry

/-- A document that cannot be read or decoded changes nothing. The silences of any other land one
after another, up to the first that is to find an id when the last one is taken; and it is as if
only those before it had been loaded. -/
theorem load_lands_in_turn {history : History} {r : Registry} (run : Run history r)
    (now : Instant) (clock : Nat → Instant) (path : String) :
    (∀ fault : Disk.Fault,
      r.load now clock path (.error fault) = ⟨.error (.fault fault), r, []⟩) ∧
    (∀ (bytes : Bytes) (cause : Json.Error), Silence.decodeAll clock bytes = .error cause →
      r.load now clock path (.ok bytes) = ⟨.error (.deserialization cause), r, []⟩) ∧
    ∀ (bytes : Bytes) (xs ys : List Silence), Silence.decodeAll clock bytes = .ok xs →
      landed r.lastId.value.toNat xs = ys →
      r.Landing xs ys ∧
      (r.load now clock path (.ok bytes)).answer =
        (if ys.length = xs.length then .ok xs.length else .error (.idsExhausted .last)) ∧
      r.Loaded now ys (r.load now clock path (.ok bytes)).registry ∧
      ∀ (clock' : Nat → Instant) (path' : String) (bytes' : Bytes),
        Silence.decodeAll clock' bytes' = .ok (xs.take ys.length) →
        (r.load now clock' path' (.ok bytes')).answer = .ok ys.length ∧
          (r.load now clock' path' (.ok bytes')).registry =
            (r.load now clock path (.ok bytes)).registry := by
  refine ⟨fun fault => rfl, fun bytes cause h => ?_, fun bytes xs ys h hys => ?_⟩
  · unfold Registry.load
    simp only [h]
  · subst hys
    obtain ⟨hanswer, hloaded, log, htaken⟩ := Registry.loaded_of_inTurn now xs run
    obtain ⟨hload, hregistry⟩ := Registry.load_eq_inTurn r now path h
    rw [hload, hregistry, hanswer]
    refine ⟨Registry.landing_landed run xs, ?_, hloaded, fun clock' path' bytes' h' => ?_⟩
    · split_ifs with hall
      · rw [Except.map, List.length_map, hall]
      · rfl
    · obtain ⟨hload', hregistry'⟩ := Registry.load_eq_inTurn r now path' h'
      rw [hload', hregistry', htaken, Except.map, List.length_map]
      exact ⟨rfl, rfl⟩

/-- A registry that holds two records loads five more. One finds the next id, one is given the same
id, one the id of a record that is there and one the last id; the fifth finds no id. -/
theorem load_lands_in_turn_up_to_the_last_id :
    let now : Instant := ⟨1700000000, 5, by decide, by decide, by decide⟩
    let document := Text.bytes
      "[[0,\"a\",1,9],[8,\"b\",1,9],[3,\"c\",1,9],[18446744073709551615,\"d\",1,9],[0,\"e\",1,9]]"
    ∃ (history : History) (r : Registry) (ys : List Silence), Run history r ∧
      r.records.keys = [⟨3⟩, ⟨7⟩] ∧
      ys.map (fun y => (y.id.value, y.createdBy)) =
        [(8, "a"), (8, "b"), (3, "c"), (18446744073709551615, "d")] ∧
      (r.load now (fun _ => now) "" (.ok document)).answer = .error (.idsExhausted .last) ∧
      r.Loaded now ys (r.load now (fun _ => now) "" (.ok document)).registry := by
  intro now document
  let x : Silence := .new now "ops" now
  obtain ⟨history, r, run, hkeys, hlast⟩ : ∃ history r, Run history r ∧
      r.records.keys = [⟨3⟩, ⟨7⟩] ∧ r.lastId.value.toNat = 7 :=
    ⟨_, _, (Run.nil.add 0 now (x.withId ⟨7⟩)).add 0 now (x.withId ⟨3⟩), by decide +kernel⟩
  have hfacts : (Silence.decodeAll (fun _ => now) document).toOption.map (fun xs =>
      (xs.length, (landed 7 xs).map fun y => (y.id.value, y.createdBy))) =
      some (5, [(8, "a"), (8, "b"), (3, "c"), (18446744073709551615, "d")]) := by
    decide +kernel
  cases hread : Silence.decodeAll (fun _ => now) document with
  | error e =>
    rw [hread] at hfacts
    cases hfacts
  | ok xs =>
    rw [hread] at hfacts
    obtain ⟨hlength, hlanded⟩ := Prod.mk.inj (Option.some.inj hfacts)
    obtain ⟨-, hanswer, hloaded, -⟩ := (load_lands_in_turn run now (fun _ => now) "").2.2
      document xs (landed 7 xs) hread (by rw [hlast])
    have hshort : (landed 7 xs).length = 4 := by
      rw [← List.length_map (fun y : Silence => (y.id.value, y.createdBy)), hlanded]
      rfl
    rw [hshort, hlength] at hanswer
    exact ⟨history, r, landed 7 xs, run, hkeys, hlanded, hanswer, hloaded⟩

end AlertSilences
