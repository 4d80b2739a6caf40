import AlertSilences.Registry

/-! Many calls of the registry in a row. -/

namespace AlertSilences.Registry

/-- Calls one after another, up to the first that fails; `done` and `log` are the answers and what
was told before, in reverse. -/
def inTurnOnto {α β : Type} (op : α → Registry → Outcome β) :
    List β → Log → List α → Registry → Outcome (List β)
  | done, log, [], r => ⟨.ok done.reverse, r, log.reverse⟩
  | done, log, a :: rest, r =>
    match op a r with
    | ⟨.error e, r, more⟩ => ⟨.error e, r, (more.reverseAux log).reverse⟩
    | ⟨.ok b, r, more⟩ => inTurnOnto op (b :: done) (more.reverseAux log) rest r

def inTurn {α β : Type} (op : α → Registry → Outcome β) (calls : List α) (r : Registry) :
    Outcome (List β) :=
  inTurnOnto op [] [] calls r

theorem inTurnOnto_eq {α β : Type} (op : α → Registry → Outcome β) (done : List β) (log : Log)
    (calls : List α) (r : Registry) :
    inTurnOnto op done log calls r =
      ⟨(inTurn op calls r).answer.map (done.reverse ++ ·), (inTurn op calls r).registry,
        log.reverse ++ (inTurn op calls r).log⟩ := by
  induction calls generalizing done log r with
  | nil => simp [inTurn, inTurnOnto, Except.map]
  | cons a rest ih =>
    simp only [inTurn, inTurnOnto]
    split
    · simp [Except.map]
    · rw [ih, ih]
      cases (inTurn op rest _).answer <;> simp [Except.map]

/-- The first call, then the others unless it failed. -/
theorem inTurn_cons {α β : Type} (op : α → Registry → Outcome β) (a : α) (rest : List α)
    (r : Registry) :
    inTurn op (a :: rest) r = match op a r with
      | ⟨.error e, r, log⟩ => ⟨.error e, r, log⟩
      | ⟨.ok b, r, log⟩ =>
        ⟨(inTurn op rest r).answer.map (b :: ·), (inTurn op rest r).registry,
          log ++ (inTurn op rest r).log⟩ := by
  rw [inTurn, inTurnOnto]
  split
  · simp
  · rw [inTurnOnto_eq]
    simp

/-- A call whose failure is an answer like any other. -/
def attempt {α β : Type} (op : α → Registry → Outcome β) (a : α) (r : Registry) :
    Outcome (Option β) :=
  let out := op a r
  ⟨.ok out.answer.toOption, out.registry, out.log⟩

/-- Calls one after another; those that fail are passed over. -/
def eachInTurn {α β : Type} (op : α → Registry → Outcome β) (calls : List α) (r : Registry) :
    Outcome (List β) :=
  let out := inTurn (attempt op) calls r
  ⟨out.answer.map (·.filterMap id), out.registry, out.log⟩

/-- The silence with the number of the call as one more filter. -/
def numbered (s : Silence) (n : Nat) : Silence := s.withFilter "n" (toString n)

def idsBetween (r : Registry) (first last : SilenceId) : List SilenceId :=
  r.records.keys.filter fun id => !(id < first) && !(last < id)

end AlertSilences.Registry
