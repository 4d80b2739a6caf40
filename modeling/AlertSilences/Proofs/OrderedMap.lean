import Mathlib.Data.List.Nodup
import Std.Data.ExtTreeMap

/-! Ordered maps read as lists: what their values and their first entry are, and what an
insertion or an erasure does to the list. -/

namespace AlertSilences.OrderedMap

variable {α β : Type} {cmp : α → α → Ordering} [Std.TransCmp cmp]

open Std Std.DTreeMap.Internal

theorem values_eq_map_snd (t : ExtTreeMap α β cmp) : t.values = t.toList.map Prod.snd := by
  obtain ⟨⟨q⟩⟩ := t
  induction q using Quotient.ind with
  | _ m =>
    change m.inner.values = (Impl.Const.toList m.inner).map Prod.snd
    rw [Impl.values_eq_map_snd, Impl.Const.toList_eq_toListModel_map, List.map_map]
    rfl

theorem minEntry?_eq_head? (t : ExtTreeMap α β cmp) : t.minEntry? = t.toList.head? := by
  obtain ⟨⟨q⟩⟩ := t
  induction q using Quotient.ind with
  | _ m =>
    change Impl.Const.minEntry? m.inner = (Impl.Const.toList m.inner).head?
    rw [Impl.Const.toList_eq_toListModel_map]
    induction m.inner using Impl.Const.minEntry?.induct with
    | case1 => simp [Impl.Const.minEntry?]
    | case2 => simp [Impl.Const.minEntry?]
    | case3 => simp_all [Impl.Const.minEntry?]

theorem nodup_toList (t : ExtTreeMap α β cmp) : t.toList.Nodup :=
  t.distinct_keys_toList.imp (by rintro a b h rfl; exact h ReflCmp.compare_self)

variable [LawfulEqCmp cmp] [DecidableEq α]

@[simp] theorem getElem?_insert (t : ExtTreeMap α β cmp) (k a : α) (v : β) :
    (t.insert k v)[a]? = if k = a then some v else t[a]? := by
  simp [ExtTreeMap.getElem?_insert]

@[simp] theorem getElem?_erase (t : ExtTreeMap α β cmp) (k a : α) :
    (t.erase k)[a]? = if k = a then none else t[a]? := by
  simp [ExtTreeMap.getElem?_erase]

/-- Under a key that is there a new value brings no other key. -/
theorem isSome_getElem?_insert {t : ExtTreeMap α β cmp} {k : α} {v : β} (h : t[k]? = some v)
    (w : β) (a : α) : (t.insert k w)[a]?.isSome = t[a]?.isSome := by
  rw [getElem?_insert]
  split_ifs with hk
  · rw [← hk, h]
    rfl
  · rfl

theorem erase_of_getElem?_eq_none {t : ExtTreeMap α β cmp} {k : α} (h : t[k]? = none) :
    t.erase k = t := by
  apply ExtTreeMap.ext_getElem?
  intro a
  rw [getElem?_erase]
  split_ifs with hk
  · rw [← hk, h]
  · rfl

theorem insert_erase (t : ExtTreeMap α β cmp) (k : α) (v : β) :
    (t.erase k).insert k v = t.insert k v := by
  apply ExtTreeMap.ext_getElem?
  intro a
  rw [getElem?_insert, getElem?_insert, getElem?_erase]
  split_ifs <;> rfl

theorem erase_insert {t : ExtTreeMap α β cmp} {k : α} (h : t[k]? = none) (v : β) :
    (t.insert k v).erase k = t := by
  apply ExtTreeMap.ext_getElem?
  intro a
  rw [getElem?_erase, getElem?_insert]
  split_ifs with hk
  · rw [← hk, h]
  · rfl

theorem erase_eq_filter (t : ExtTreeMap α β cmp) (k : α) :
    t.erase k = t.filter fun a _ => a ≠ k := by
  ext a v
  rw [getElem?_erase, ExtTreeMap.getElem?_filter']
  rcases eq_or_ne k a with rfl | h
  · simp
  · simp [h, h.symm]

theorem toList_erase (t : ExtTreeMap α β cmp) (k : α) :
    (t.erase k).toList = t.toList.filter fun e => e.1 ≠ k := by
  rw [erase_eq_filter, ExtTreeMap.toList_filter]

/-- Without its first entry a map is the rest of the list. -/
theorem toList_erase_head {t : ExtTreeMap α β cmp} {e : α × β} {rest : List (α × β)}
    (h : t.toList = e :: rest) : (t.erase e.1).toList = rest := by
  have hd := t.distinct_keys_toList
  rw [h, List.pairwise_cons] at hd
  rw [toList_erase, h, List.filter_cons_of_neg (by simp), List.filter_eq_self]
  intro a ha
  have hne : a.1 ≠ e.1 := by
    intro heq
    exact hd.1 a ha (heq ▸ ReflCmp.compare_self)
  exact decide_eq_true hne

theorem toList_insert_perm {t : ExtTreeMap α β cmp} {k : α} (v : β) (h : t[k]? = none) :
    (t.insert k v).toList.Perm ((k, v) :: t.toList) := by
  have hk : (k, v) ∉ t.toList := by
    rw [ExtTreeMap.mem_toList_iff_getElem?_eq_some, h]
    exact nofun
  rw [List.perm_ext_iff_of_nodup (nodup_toList _) (List.nodup_cons.2 ⟨hk, nodup_toList t⟩)]
  rintro ⟨a, w⟩
  rw [List.mem_cons, ExtTreeMap.mem_toList_iff_getElem?_eq_some,
    ExtTreeMap.mem_toList_iff_getElem?_eq_some, getElem?_insert]
  rcases eq_or_ne k a with rfl | hne
  · simp only [if_true, Option.some.injEq, Prod.mk.injEq, true_and, h, reduceCtorEq, or_false]
    exact eq_comm
  · simp only [if_neg hne, Prod.mk.injEq, hne.symm, false_and, false_or]

theorem values_insert_perm {t : ExtTreeMap α β cmp} {k : α} (v : β) (h : t[k]? = none) :
    (t.insert k v).values.Perm (v :: t.values) := by
  rw [values_eq_map_snd, values_eq_map_snd]
  exact (toList_insert_perm v h).map Prod.snd

/-- The values of a map are one of them and those of the other keys. -/
theorem values_perm_of_getElem? {t : ExtTreeMap α β cmp} {k : α} {v : β} (h : t[k]? = some v) :
    t.values.Perm (v :: (t.erase k).values) := by
  have hinsert : (t.erase k).insert k v = t := by
    apply ExtTreeMap.ext_getElem?
    intro a
    rw [insert_erase, getElem?_insert]
    split_ifs with hk
    · rw [← hk, h]
    · rfl
  have hfree : (t.erase k)[k]? = none := by rw [getElem?_erase, if_pos rfl]
  have hperm := values_insert_perm v hfree
  rwa [hinsert] at hperm

omit [DecidableEq α] in
@[simp] theorem mem_values {t : ExtTreeMap α β cmp} {v : β} :
    v ∈ t.values ↔ ∃ k : α, t[k]? = some v := by
  simp [values_eq_map_snd]

/-- The entries of a map make up the map again. -/
theorem ofList_toList (t : ExtTreeMap α β cmp) : ExtTreeMap.ofList t.toList cmp = t := by
  apply ExtTreeMap.ext_getElem?
  intro k
  cases h : t[k]? with
  | some v =>
    exact ExtTreeMap.getElem?_ofList_of_mem ReflCmp.compare_self t.distinct_keys_toList
      (ExtTreeMap.mem_toList_iff_getElem?_eq_some.2 h)
  | none =>
    apply ExtTreeMap.getElem?_ofList_of_contains_eq_false
    rw [ExtTreeMap.map_fst_toList_eq_keys, Bool.eq_false_iff, ne_eq, List.contains_iff_mem,
      ExtTreeMap.mem_keys, ExtTreeMap.mem_iff_isSome_getElem?, h]
    exact nofun

end AlertSilences.OrderedMap
