import AlertSilences.Proofs.Ledger
import AlertSilences.Proofs.NormalForm
import AlertSilences.Registry.Load

/-! What was written of a registry is loaded into an empty one. The silences have ids of their own,
so that each goes to the id it had, and the highest id of the new registry is the highest among
them. The order they are written in makes no difference. -/

namespace AlertSilences

namespace Ledger

theorem ne_unset_of_target? {l : Ledger} {s : Silence} {id : SilenceId}
    (h : l.target? s = some id) : id ≠ .unset := by
  unfold target? at h
  split_ifs at h with hset hroom
  · exact Option.some.inj h ▸ hset
  · rw [← Option.some.inj h]
    intro hzero
    have hvalue : (UInt64.ofNat (l.counter + 1)).toNat = 0 :=
      congrArg (fun id : SilenceId => id.value.toNat) hzero
    rw [UInt64.toNat_ofNat_of_lt' hroom] at hvalue
    exact Nat.succ_ne_zero _ hvalue

theorem getElem?_remove_unset {l : Ledger} (h : l.silences[SilenceId.unset]? = none)
    (id : SilenceId) : (l.remove id).silences[SilenceId.unset]? = none := by
  rw [remove, OrderedMap.getElem?_erase]
  split_ifs
  · rfl
  · exact h

theorem getElem?_after_unset {l : Ledger} (h : l.silences[SilenceId.unset]? = none) (call : Call) :
    (l.after call).silences[SilenceId.unset]? = none := by
  cases call with
  | add s answer =>
    rw [after]
    cases htarget : l.target? s with
    | none => exact h
    | some id =>
      dsimp only
      rw [OrderedMap.getElem?_insert, if_neg (ne_unset_of_target? htarget), h]
  | update s answer =>
    rw [after]
    split_ifs with hmem
    · have hset : s.id ≠ .unset := by
        intro hunset
        rw [hunset, Std.ExtTreeMap.mem_iff_isSome_getElem?, h] at hmem
        cases hmem
      dsimp only
      rw [OrderedMap.getElem?_insert, if_neg hset, h]
    · exact h
  | delete id answer => exact getElem?_remove_unset h id
  | clear answer => exact Std.ExtTreeMap.getElem?_empty
  | _ => exact h

end Ledger

/-- Nothing is ever kept under the id that is not yet assigned. -/
theorem History.getElem?_ledger_unset (history : History) :
    history.ledger.silences[SilenceId.unset]? = none := by
  induction history with
  | nil => exact Std.ExtTreeMap.getElem?_empty
  | cons m past ih =>
    rw [ledger]
    split
    · exact Ledger.getElem?_after_unset ih _
    · unfold Ledger.told
      split
      · exact Ledger.getElem?_remove_unset ih _
      · exact ih

namespace Registry

/-- A silence that has an id already is added under it. -/
theorem add_of_set (now : Instant) {s : Silence} (h : s.id ≠ .unset) (r : Registry) :
    (r.add now s).answer = .ok s.id ∧
      (r.add now s).registry.ledger = r.ledger.after (.add s (.ok s.id)) := by
  have htarget : r.ledger.target? s = some s.id := by rw [Ledger.target?, if_pos h]
  have hanswer : (r.add now s).answer = .ok s.id := by
    rw [answer_add, assignId_eq, htarget]
    rfl
  have hanswers := r.answers_add now s
  rw [hanswer] at hanswers
  exact ⟨hanswer, ledger_of_answers hanswers⟩

/-- What a registry is as `loaded` when its silences were written in the order of `scan` and were
read again, each at the time that the clock showed for its place. -/
structure Reloaded (clock : Nat → Instant) (scan : List Silence) (r loaded : Registry) : Prop where
  ids : ∀ id : SilenceId, id ∈ loaded.records ↔ id ∈ r.records
  restored : ∀ (id : SilenceId) (x : Silence), r.get id = .ok x →
    ∃ i y, scan[i]? = some x ∧ loaded.get id = .ok y ∧ x.Restored (clock i) y
  lastId : loaded.lastId = r.records.maxKeyD .unset

theorem get_eq_ok {r : Registry} {id : SilenceId} {x : Silence} :
    r.get id = .ok x ↔ r.ledger.silences[id]? = some x := by
  rw [getElem?_ledger, get]
  cases r.records[id]? <;> simp

theorem mem_records {r : Registry} {id : SilenceId} :
    id ∈ r.records ↔ id ∈ r.ledger.silences := by
  rw [mem_ledger, Std.ExtTreeMap.mem_iff_isSome_getElem?]

end Registry

namespace Registry

/-- The order of the file makes no difference, as long as the clock shows the same second for each
silence. -/
theorem Reloaded.ledger_eq {clock clock' : Nat → Instant} {scan scan' : List Silence}
    {r a b : Registry} (ha : Reloaded clock scan r a) (hb : Reloaded clock' scan' r b)
    (hclock : ∀ (i j : Nat) (x : Silence), scan[i]? = some x → scan'[j]? = some x →
      (clock i).floorSecond = (clock' j).floorSecond) : a.ledger = b.ledger := by
  have hsilences : a.ledger.silences = b.ledger.silences := by
    apply Std.ExtTreeMap.ext_getElem?
    intro id
    by_cases hmem : id ∈ r.records
    · rw [mem_records, Std.ExtTreeMap.mem_iff_isSome_getElem?, Option.isSome_iff_exists] at hmem
      obtain ⟨x, hx⟩ := hmem
      obtain ⟨i, y, hi, hy, hxy⟩ := ha.restored id x (get_eq_ok.2 hx)
      obtain ⟨j, y', hj, hy', hxy'⟩ := hb.restored id x (get_eq_ok.2 hx)
      rw [get_eq_ok.1 hy, get_eq_ok.1 hy', hxy.unique (hclock i j x hi hj) hxy']
    · have ha' := mt (ha.ids id).1 hmem
      have hb' := mt (hb.ids id).1 hmem
      rw [mem_records] at ha' hb'
      rw [Std.ExtTreeMap.getElem?_eq_none ha', Std.ExtTreeMap.getElem?_eq_none hb']
  rw [ledger, ledger, Ledger.mk.injEq]
  exact ⟨hsilences, congrArg (fun id => id.value.toNat) (ha.lastId.trans hb.lastId.symm)⟩

end Registry

end AlertSilences
