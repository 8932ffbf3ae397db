import AdaptiveVM.Proofs.Process

/-!
Namespaces are ordered maps.

A namespace keeps an index beside its slots, and leaves an empty slot behind where a name has been
removed. It is tidy when the index names just the slots that hold a value. A tidy namespace can be
read as the list of its bindings in slot order, and on that list binding and removing are what they
are for any ordered association list. A slot keeps its name, and once empty stays so;
hence a slot is never given out twice.
-/

namespace AdaptiveVM

/-! ### Ordered maps -/

/-- The request makes a namespace. -/
def Request.opens : Request → Bool
  | .newModule _ | .newClass _ => true
  | _ => false

/-- Names and their values, in the order in which the names were bound. -/
abbrev OrderedMap := List (String × Value)

namespace OrderedMap

/-- A bound name takes the new value where it stands, and a new name comes last. -/
def bind (m : OrderedMap) (key : String) (value : Value) : OrderedMap :=
  if (m.lookup key).isSome then m.map fun e => if e.1 = key then (key, value) else e
  else m ++ [(key, value)]

def unbind (m : OrderedMap) (key : String) : OrderedMap := m.filter fun e => e.1 ≠ key

/-- The map of the namespace at place `n` after a request. -/
def served (m : OrderedMap) (n : Nat) : Request → OrderedMap
  | .assign n' key value => if n' = n then m.bind key value else m
  | .remove n' key => if n' = n then m.unbind key else m
  | _ => m

/-- The maps of all namespaces after a request; a new namespace comes last and is empty. -/
def serve (ms : List OrderedMap) (r : Request) : List OrderedMap :=
  ms.mapIdx (fun n m => m.served n r) ++ if r.opens then [[]] else []

/-- The maps of all namespaces after some requests. -/
def serveAll (ms : List OrderedMap) (rs : List Request) : List OrderedMap := rs.foldl serve ms

lemma getD_serve_of_lt {ms : List OrderedMap} {n : Nat} (hn : n < ms.length) (r : Request) :
    (serve ms r).getD n [] = (ms.getD n []).served n r := by
  have hn' : n < (ms.mapIdx fun n m => m.served n r).length := by rwa [List.length_mapIdx]
  simp only [serve, List.getD_eq_getElem?_getD, List.getElem?_append_left hn', List.getElem?_mapIdx,
    List.getElem?_eq_getElem hn, Option.map_some, Option.getD_some]

lemma getD_serve_of_le {ms : List OrderedMap} {n : Nat} (hn : ms.length ≤ n) (r : Request) :
    (serve ms r).getD n [] = [] := by
  have hn' : (ms.mapIdx fun n m => m.served n r).length ≤ n := by rwa [List.length_mapIdx]
  rw [serve, List.getD_eq_getElem?_getD, List.getElem?_append_right hn']
  split
  · rcases n - (ms.mapIdx fun n m => m.served n r).length with _ | k <;> rfl
  · rfl

/-- Where names are distinct, a look-up finds every binding. -/
lemma lookup_eq_some_iff {α : Type} {m : List (String × α)} (hm : (m.map Prod.fst).Nodup)
    {key : String} {x : α} : m.lookup key = some x ↔ (key, x) ∈ m := by
  induction m with
  | nil => simp
  | cons e m ih =>
    obtain ⟨k, y⟩ := e
    rw [List.map_cons, List.nodup_cons] at hm
    rw [List.lookup_cons, List.mem_cons, Prod.mk.injEq, ← ih hm.2]
    by_cases hk : key = k
    · subst hk
      have hnone : m.lookup key = none := by
        rw [List.lookup_eq_none_iff]
        rintro ⟨k', z⟩ hmem
        simp only [bne_iff_ne, ne_eq]
        rintro rfl
        exact hm.1 (List.mem_map.mpr ⟨_, hmem, rfl⟩)
      simp [hnone, eq_comm]
    · have hne : (key == k) = false := by simpa using hk
      simp [hne, hk]

end OrderedMap

namespace Namespace

variable {ns : Namespace} {key key' : String} {i j : Nat} {value : Value} {version : Token}

/-! ### Reading a namespace as an ordered map -/

/-- Every reading of a namespace is a reading of an ordered map. -/
structure Represents (ns : Namespace) (m : OrderedMap) : Prop where
  get : ∀ key, ns.get? key = m.lookup key
  contains : ∀ key, ns.contains key = (m.lookup key).isSome
  size : ns.size = m.length
  isEmpty : ns.isEmpty = m.isEmpty
  bindings : ns.bindings = m
  /-- The slot of a bound name holds its value, and other names have no slot. -/
  slot : ∀ key, ((ns.indexOf? key).isSome = (m.lookup key).isSome) ∧
    ∀ i, ns.indexOf? key = some i → ns.valueAt? i = m.lookup key
  /-- What is not the slot of a bound name holds nothing. -/
  vacant : ∀ i, (∀ key, ns.indexOf? key ≠ some i) → ns.valueAt? i = none

/-- The index names just the slots that hold a value. -/
structure Tidy (ns : Namespace) : Prop where
  slot : ∀ key i, ns.indexOf? key = some i ↔ ∃ v, ns.slots[i]? = some ⟨key, some v⟩
  distinct : (ns.index.map Prod.fst).Nodup

lemma mem_index_iff : key ∈ ns.index.map Prod.fst ↔ (ns.indexOf? key).isSome = true := by
  rw [indexOf?, List.lookup_isSome_iff, List.mem_map]
  simp only [beq_iff_eq]
  exact exists_congr fun e => and_congr_right' eq_comm

lemma mem_bindings_iff :
    (key, value) ∈ ns.bindings ↔ ∃ i : Nat, ns.slots[i]? = some ⟨key, some value⟩ := by
  simp only [bindings, List.mem_filterMap, Option.map_eq_some_iff, Prod.mk.injEq]
  constructor
  · rintro ⟨⟨k, v⟩, hs, w, rfl, rfl, rfl⟩
    obtain ⟨i, hi⟩ := List.mem_iff_getElem?.mp hs
    exact ⟨i, by rw [← Array.getElem?_toList, hi]⟩
  · rintro ⟨i, hi⟩
    have hmem := List.mem_iff_getElem?.mpr ⟨i, (Array.getElem?_toList ..).trans hi⟩
    exact ⟨_, hmem, value, rfl, rfl, rfl⟩

namespace Tidy

lemma inj (ht : ns.Tidy) (hi : ns.indexOf? key = some i) (hi' : ns.indexOf? key' = some i) :
    key' = key := by
  obtain ⟨v, hv⟩ := (ht.slot key i).mp hi
  obtain ⟨v', hv'⟩ := (ht.slot key' i).mp hi'
  cases hv.symm.trans hv'
  rfl

lemma lt_size (ht : ns.Tidy) (hi : ns.indexOf? key = some i) : i < ns.slots.size := by
  obtain ⟨v, hv⟩ := (ht.slot key i).mp hi
  exact (Array.getElem?_eq_some_iff.mp hv).1

/-- No two slots hold a value for one name. -/
lemma distinct_bindings (ht : ns.Tidy) : (ns.bindings.map Prod.fst).Nodup := by
  rw [bindings, List.map_filterMap, List.Nodup, List.pairwise_filterMap, List.pairwise_iff_getElem]
  intro i j hi hj hij k hk k' hk' hkk
  have hslot (n : Nat) (hn : n < ns.slots.toList.length) (name : String)
      (h : ((ns.slots.toList[n].value.map fun v => (ns.slots.toList[n].key, v)).map Prod.fst) =
        some name) : ns.indexOf? name = some n := by
    simp only [Option.map_eq_some_iff] at h
    obtain ⟨e, ⟨v, hv, rfl⟩, rfl⟩ := h
    refine (ht.slot _ n).mpr ⟨v, ?_⟩
    rw [← Array.getElem?_toList, List.getElem?_eq_getElem hn, ← hv]
  have h1 := hslot i hi k hk
  have h2 := hslot j hj k' hk'
  rw [← hkk, h1] at h2
  exact absurd (Option.some.inj h2) (by omega)

lemma lookup_bindings (ht : ns.Tidy) (key : String) : ns.bindings.lookup key = ns.get? key := by
  rcases hi : ns.indexOf? key with _ | i
  · rw [get?, hi, Option.bind_none]
    by_contra hne
    obtain ⟨v, hv⟩ := Option.ne_none_iff_exists'.mp hne
    rw [OrderedMap.lookup_eq_some_iff ht.distinct_bindings, mem_bindings_iff] at hv
    obtain ⟨i, hs⟩ := hv
    have hsome := (ht.slot key i).mpr ⟨v, hs⟩
    rw [hi] at hsome
    cases hsome
  · obtain ⟨v, hv⟩ := (ht.slot key i).mp hi
    rw [get?, hi, Option.bind_some, valueAt?, hv, Option.bind_some,
      OrderedMap.lookup_eq_some_iff ht.distinct_bindings]
    exact mem_bindings_iff.mpr ⟨i, hv⟩

lemma isSome_lookup (ht : ns.Tidy) (key : String) :
    (ns.bindings.lookup key).isSome = (ns.indexOf? key).isSome := by
  rw [ht.lookup_bindings]
  rcases hi : ns.indexOf? key with _ | i
  · rw [get?, hi]
    rfl
  · obtain ⟨v, hv⟩ := (ht.slot key i).mp hi
    rw [get?, hi, Option.bind_some, valueAt?, hv]
    rfl

/-- There are as many entries in the index as slots with a value. -/
lemma size_eq (ht : ns.Tidy) : ns.size = ns.bindings.length := by
  have hperm : (ns.index.map Prod.fst).Perm (ns.bindings.map Prod.fst) := by
    refine (List.perm_ext_iff_of_nodup ht.distinct ht.distinct_bindings).mpr fun key => ?_
    rw [mem_index_iff, ← ht.isSome_lookup, List.lookup_isSome_iff, List.mem_map]
    simp only [beq_iff_eq]
    exact exists_congr fun e => and_congr_right' eq_comm
  simpa [size] using hperm.length_eq

lemma represents (ht : ns.Tidy) : ns.Represents ns.bindings where
  get key := (ht.lookup_bindings key).symm
  contains key := (ht.isSome_lookup key).symm
  size := ht.size_eq
  isEmpty := by
    rw [Bool.eq_iff_iff, isEmpty, List.isEmpty_iff_length_eq_zero, List.isEmpty_iff_length_eq_zero,
      ← ht.size_eq, size]
  bindings := rfl
  slot key := by
    refine ⟨(ht.isSome_lookup key).symm, fun i hi => ?_⟩
    rw [ht.lookup_bindings, get?, hi, Option.bind_some]
  vacant i hi := by
    rcases hs : ns.slots[i]? with _ | ⟨k, _ | v⟩
    · rw [valueAt?, hs, Option.bind_none]
    · rw [valueAt?, hs, Option.bind_some]
    · exact absurd ((ht.slot k i).mpr ⟨v, hs⟩) (hi k)

lemma empty (version : Token) : ({ keysVersion := version } : Namespace).Tidy :=
  ⟨fun key i => by simp [indexOf?], List.nodup_nil⟩

end Tidy

/-! ### Binding and removing -/

/-- The namespace with a name bound; a new name takes the keys version. -/
def assigned (ns : Namespace) (key : String) (value : Value) (version : Token) : Namespace :=
  match ns.indexOf? key with
  | some i => ns.rebind i value
  | none => ns.append key value version

/-- The namespace without a name; a bound name leaves the keys version behind. -/
def removed (ns : Namespace) (key : String) (version : Token) : Namespace :=
  match ns.indexOf? key with
  | some i => ns.vacate key i version
  | none => ns

lemma assigned_of_some (hi : ns.indexOf? key = some i) (value : Value) (version : Token) :
    ns.assigned key value version = ns.rebind i value := by
  rw [assigned, hi]

lemma assigned_of_none (hi : ns.indexOf? key = none) (value : Value) (version : Token) :
    ns.assigned key value version = ns.append key value version := by
  rw [assigned, hi]

lemma removed_of_some (hi : ns.indexOf? key = some i) (version : Token) :
    ns.removed key version = ns.vacate key i version := by
  rw [removed, hi]

lemma removed_of_none (hi : ns.indexOf? key = none) (version : Token) :
    ns.removed key version = ns := by
  rw [removed, hi]

lemma indexOf?_append (ns : Namespace) (key : String) (value : Value) (version : Token)
    (key' : String) : (ns.append key value version).indexOf? key' =
      if key' = key then some ns.slots.size else ns.indexOf? key' := by
  by_cases hk : key' = key
  · simp [indexOf?, append, hk]
  · have hne : (key' == key) = false := by simpa using hk
    simp [indexOf?, append, List.lookup_cons, hne, hk]

lemma indexOf?_vacate (ns : Namespace) (key : String) (i : Nat) (version : Token) (key' : String) :
    (ns.vacate key i version).indexOf? key' = if key' = key then none else ns.indexOf? key' := by
  simp only [indexOf?, vacate]
  induction ns.index with
  | nil => simp
  | cons e rest ih =>
    obtain ⟨k, n⟩ := e
    by_cases hk : k = key
    · subst hk
      by_cases hk' : key' = k
      · simpa [hk'] using ih
      · have hne : (key' == k) = false := by simpa using hk'
        simpa [hk', List.lookup_cons, hne] using ih
    · by_cases hk' : key' = k
      · subst hk'
        simp [hk]
      · have hne : (key' == k) = false := by simpa using hk'
        simpa [hk, List.lookup_cons, hne] using ih

/-- The slot of a bound name is the only one that holds a value for the name. -/
lemma Tidy.modify_eq_map (ht : ns.Tidy) (hi : ns.indexOf? key = some i) (f : Slot → Slot) :
    ns.slots.modify i f =
      ns.slots.map fun s => if s.key = key ∧ s.value.isSome = true then f s else s := by
  refine Array.ext_getElem? fun j => ?_
  rw [Array.getElem?_modify, Array.getElem?_map]
  split
  · next hij =>
    subst hij
    obtain ⟨v, hv⟩ := (ht.slot key i).mp hi
    simp [hv]
  · next hij =>
    rcases hs : ns.slots[j]? with _ | ⟨k, v⟩
    · rfl
    · have hother : ¬ (k = key ∧ v.isSome = true) := by
        rintro ⟨rfl, hv⟩
        obtain ⟨w, rfl⟩ := Option.isSome_iff_exists.mp hv
        have hj := (ht.slot k j).mpr ⟨w, hs⟩
        exact hij (Option.some.inj (hi.symm.trans hj))
      simp [hother]

lemma Tidy.assigned (ht : ns.Tidy) (key : String) (value : Value) (version : Token) :
    (ns.assigned key value version).Tidy := by
  rcases hi : ns.indexOf? key with _ | i
  · rw [assigned_of_none hi]
    refine ⟨fun key' j => ?_, ?_⟩
    · rw [indexOf?_append]
      simp only [append, Array.getElem?_push]
      by_cases hj : j = ns.slots.size
      · subst hj
        have hfree : ns.indexOf? key' ≠ some ns.slots.size := fun hc => by
          have := ht.lt_size hc
          omega
        by_cases hk : key' = key
        · simp [hk]
        · simp [hk, hfree, Ne.symm hk]
      · rw [if_neg hj]
        split
        · next hk =>
          subst hk
          have hnone : ¬ ∃ v, ns.slots[j]? = some ⟨key', some v⟩ := by
            rw [← ht.slot, hi]
            simp
          simp [hnone, Ne.symm hj]
        · exact ht.slot key' j
    · have hnot : key ∉ ns.index.map Prod.fst := by
        rw [mem_index_iff, hi]
        simp
      exact List.nodup_cons.mpr ⟨hnot, ht.distinct⟩
  · rw [assigned_of_some hi]
    refine ⟨fun key' j => ?_, ht.distinct⟩
    show ns.indexOf? key' = some j ↔ _
    rw [ht.slot]
    simp only [rebind, Array.getElem?_modify]
    split
    · next hij =>
      subst hij
      obtain ⟨v, hv⟩ := (ht.slot key i).mp hi
      simp [hv]
    · rfl

lemma Tidy.removed (ht : ns.Tidy) (key : String) (version : Token) :
    (ns.removed key version).Tidy := by
  rcases hi : ns.indexOf? key with _ | i
  · rw [removed_of_none hi]
    exact ht
  · rw [removed_of_some hi]
    refine ⟨fun key' j => ?_, ?_⟩
    · obtain ⟨v, hv⟩ := (ht.slot key i).mp hi
      rw [indexOf?_vacate]
      simp only [vacate, Array.getElem?_modify]
      by_cases hij : i = j
      · -- the slot of the name, which no other name has
        subst hij
        have hother : key' ≠ key → ns.indexOf? key' ≠ some i := fun hk hc => hk (ht.inj hi hc)
        by_cases hk : key' = key
        · simp [hk, hv]
        · simp [hk, hv, hother hk]
      · rw [if_neg hij]
        split
        · next hk =>
          subst hk
          have hnone : ¬ ∃ v, ns.slots[j]? = some ⟨key', some v⟩ := by
            rw [← ht.slot, hi]
            simpa using hij
          simp [hnone]
        · exact ht.slot key' j
    · exact ht.distinct.sublist (List.filter_sublist.map Prod.fst)

/-- **Binding a name** is binding it in the ordered map. -/
theorem Tidy.bindings_assigned (ht : ns.Tidy) (key : String) (value : Value) (version : Token) :
    (ns.assigned key value version).bindings = OrderedMap.bind ns.bindings key value := by
  rw [OrderedMap.bind, ht.isSome_lookup]
  rcases hi : ns.indexOf? key with _ | i
  · rw [assigned_of_none hi]
    simp [bindings, append]
  · rw [assigned_of_some hi, Option.isSome_some, if_pos rfl]
    simp only [bindings, rebind]
    rw [ht.modify_eq_map hi, Array.toList_map, List.filterMap_map, List.map_filterMap]
    congr 1
    funext ⟨k, v⟩
    rcases v with _ | v
    · simp
    · by_cases hk : k = key <;> simp [hk]

/-- **Removing a name** is removing it from the ordered map. -/
theorem Tidy.bindings_removed (ht : ns.Tidy) (key : String) (version : Token) :
    (ns.removed key version).bindings = OrderedMap.unbind ns.bindings key := by
  rw [OrderedMap.unbind]
  rcases hi : ns.indexOf? key with _ | i
  · rw [removed_of_none hi, List.filter_eq_self.mpr]
    rintro ⟨k, v⟩ hmem
    have hnone : (ns.bindings.lookup key).isSome = false := by rw [ht.isSome_lookup, hi]; rfl
    rw [Option.isSome_eq_false_iff, Option.isNone_iff_eq_none, List.lookup_eq_none_iff] at hnone
    have hne : key ≠ k := by simpa using hnone (k, v) hmem
    simpa using hne.symm
  · rw [removed_of_some hi]
    simp only [bindings, vacate]
    rw [ht.modify_eq_map hi, Array.toList_map, List.filterMap_map, List.filter_filterMap]
    congr 1
    funext ⟨k, v⟩
    rcases v with _ | v
    · simp
    · by_cases hk : k = key <;> simp [hk, Option.filter]

/-! ### One request -/

/-- The namespace at a place after a request, which may give it a keys version. -/
def served (ns : Namespace) (n : Nat) (version : Token) : Request → Namespace
  | .assign n' key value => if n' = n then ns.assigned key value version else ns
  | .remove n' key => if n' = n then ns.removed key version else ns
  | _ => ns

lemma Tidy.served (ht : ns.Tidy) (n : Nat) (version : Token) (r : Request) :
    (ns.served n version r).Tidy := by
  unfold Namespace.served
  split
  · split
    · exact ht.assigned _ _ version
    · exact ht
  · split
    · exact ht.removed _ version
    · exact ht
  · exact ht

lemma Tidy.bindings_served (ht : ns.Tidy) (n : Nat) (version : Token) (r : Request) :
    (ns.served n version r).bindings = OrderedMap.served ns.bindings n r := by
  cases r with
  | assign n' key value =>
    simp only [Namespace.served, OrderedMap.served]
    split
    · exact ht.bindings_assigned key value version
    · rfl
  | remove n' key =>
    simp only [Namespace.served, OrderedMap.served]
    split
    · exact ht.bindings_removed key version
    · rfl
  | _ => rfl

/-- A bound name keeps its slot unless it is removed. -/
lemma indexOf?_served (hi : ns.indexOf? key = some i) {n : Nat} {r : Request}
    (hr : r ≠ .remove n key) (version : Token) :
    (ns.served n version r).indexOf? key = some i := by
  unfold Namespace.served
  split
  · next n' key' value =>
    split
    · rcases hi' : ns.indexOf? key' with _ | i'
      · rw [assigned_of_none hi', indexOf?_append, if_neg, hi]
        rintro rfl
        rw [hi'] at hi
        cases hi
      · rw [assigned_of_some hi']
        exact hi
    · exact hi
  · next n' key' =>
    split
    · next hn =>
      subst hn
      rcases hi' : ns.indexOf? key' with _ | i'
      · rw [removed_of_none hi', hi]
      · rw [removed_of_some hi', indexOf?_vacate, if_neg, hi]
        rintro rfl
        exact hr rfl
    · exact hi
  · exact hi

/-- A slot that a name has been removed from. -/
def Vacated (ns : Namespace) (i : Nat) : Prop := ∃ key, ns.slots[i]? = some ⟨key, none⟩

lemma Tidy.vacated_removed (ht : ns.Tidy) (hi : ns.indexOf? key = some i) (version : Token) :
    (ns.removed key version).Vacated i := by
  obtain ⟨v, hv⟩ := (ht.slot key i).mp hi
  rw [removed_of_some hi]
  exact ⟨key, by simp [vacate, Array.getElem?_modify, hv]⟩

/-- What has been vacated once is not given out again. -/
lemma Vacated.served (hv : ns.Vacated i) (ht : ns.Tidy) (n : Nat) (version : Token) (r : Request) :
    (ns.served n version r).Vacated i := by
  obtain ⟨k, hk⟩ := hv
  have hlt : i < ns.slots.size := (Array.getElem?_eq_some_iff.mp hk).1
  have hother (key : String) : ns.indexOf? key ≠ some i := fun hc => by
    obtain ⟨v, hv⟩ := (ht.slot key i).mp hc
    rw [hk] at hv
    cases hv
  unfold Namespace.served
  split
  · next n' key value =>
    split
    · rcases hi : ns.indexOf? key with _ | j
      · rw [assigned_of_none hi]
        exact ⟨k, by simp only [append, Array.getElem?_push, if_neg (Nat.ne_of_lt hlt), hk]⟩
      · have hji : j ≠ i := fun hc => hother key (hc ▸ hi)
        rw [assigned_of_some hi]
        exact ⟨k, by simp only [rebind, Array.getElem?_modify, if_neg hji, hk]⟩
    · exact ⟨k, hk⟩
  · next n' key =>
    split
    · rcases hi : ns.indexOf? key with _ | j
      · rw [removed_of_none hi]
        exact ⟨k, hk⟩
      · have hji : j ≠ i := fun hc => hother key (hc ▸ hi)
        rw [removed_of_some hi]
        exact ⟨k, by simp only [vacate, Array.getElem?_modify, if_neg hji, hk]⟩
    · exact ⟨k, hk⟩
  · exact ⟨k, hk⟩

lemma Vacated.indexOf?_ne (hv : ns.Vacated i) (ht : ns.Tidy) (key : String) :
    ns.indexOf? key ≠ some i := fun hc => by
  obtain ⟨k, hk⟩ := hv
  obtain ⟨v, hs⟩ := (ht.slot key i).mp hc
  rw [hk] at hs
  cases hs

/-- A request gives a namespace another keys version just when it changes the set of bound names,
and then the one that was to be given. -/
lemma keysVersion_served (ns : Namespace) (n : Nat) (version : Token) (r : Request) :
    ((ns.served n version r).keysVersion = ns.keysVersion ∧
        (ns.served n version r).contains = ns.contains) ∨
      ((ns.served n version r).keysVersion = version ∧
        (ns.served n version r).contains ≠ ns.contains) := by
  unfold Namespace.served
  split
  · next n' key value =>
    split
    · rcases hi : ns.indexOf? key with _ | i
      · refine .inr ?_
        rw [assigned_of_none hi]
        refine ⟨rfl, fun hc => ?_⟩
        have := congrFun hc key
        simp [contains, indexOf?_append, hi] at this
      · rw [assigned_of_some hi]
        exact .inl ⟨rfl, rfl⟩
    · exact .inl ⟨rfl, rfl⟩
  · next n' key =>
    split
    · rcases hi : ns.indexOf? key with _ | i
      · rw [removed_of_none hi]
        exact .inl ⟨rfl, rfl⟩
      · refine .inr ?_
        rw [removed_of_some hi]
        refine ⟨rfl, fun hc => ?_⟩
        have := congrFun hc key
        simp [contains, indexOf?_vacate, hi] at this
    · exact .inl ⟨rfl, rfl⟩
  · exact .inl ⟨rfl, rfl⟩

end Namespace

/-! ### Heaps -/

namespace Heap

/-- What a request does to the namespaces of a heap and to the source of their versions. -/
structure Serves (h : Heap) (r : Request) (h' : Heap) : Prop where
  keys : h'.tokens.keys = h.tokens.keys ∨ h'.tokens.keys = h.tokens.keys.draw.2
  size : h'.namespaces.size = if r.opens then h.namespaces.size + 1 else h.namespaces.size
  old : ∀ n < h.namespaces.size,
    h'.namespaceAt n = (h.namespaceAt n).served n h.tokens.keys.draw.1 r
  new : ∀ n, h.namespaces.size ≤ n →
    h'.namespaceAt n =
      if n < h'.namespaces.size then { keysVersion := h.tokens.keys.draw.1 } else {}

variable {h h' : Heap} {r : Request}

lemma namespaceAt_of_size_le {n : Nat} (hn : h.namespaces.size ≤ n) : h.namespaceAt n = {} :=
  getD_of_size_le hn

lemma lt_size_of_indexOf? {n i : Nat} {key : String}
    (hi : (h.namespaceAt n).indexOf? key = some i) : n < h.namespaces.size := by
  by_contra hc
  rw [namespaceAt_of_size_le (by omega)] at hi
  cases hi

/-- A request that has nothing to do with namespaces. -/
lemma Serves.of_eq (hopens : r.opens = false)
    (hserved : ∀ ns n version, Namespace.served ns n version r = ns)
    (hkeys : h'.tokens.keys = h.tokens.keys) (hnames : h'.namespaces = h.namespaces) :
    Serves h r h' where
  keys := .inl hkeys
  size := by rw [hopens, hnames]; rfl
  old n _ := by rw [hserved, namespaceAt, hnames]; rfl
  new n hn := by
    rw [hnames, if_neg (by omega), namespaceAt, hnames]
    exact getD_of_size_le hn

lemma Serves.opened (hopens : r.opens = true)
    (hserved : ∀ ns n version, Namespace.served ns n version r = ns)
    (hkeys : h'.tokens.keys = h.tokens.keys.draw.2)
    (hnames : h'.namespaces = h.namespaces.push { keysVersion := h.tokens.keys.draw.1 }) :
    Serves h r h' where
  keys := .inr hkeys
  size := by rw [hopens, hnames, Array.size_push]; rfl
  old n hn := by
    rw [hserved, namespaceAt, hnames, getD_push, if_neg (by omega)]
    rfl
  new n hn := by
    rw [namespaceAt, hnames, getD_push, Array.size_push]
    by_cases hc : n = h.namespaces.size
    · rw [if_pos hc, if_pos (by omega)]
    · rw [if_neg hc, if_neg (by omega)]
      exact getD_of_size_le hn

/-- A request that changes the namespace at one place. -/
lemma Serves.modified {n : Nat} {f : Namespace → Namespace} (hopens : r.opens = false)
    (hserved : ∀ k, (h.namespaceAt k).served k h.tokens.keys.draw.1 r =
      if n = k then f (h.namespaceAt k) else h.namespaceAt k)
    (hkeys : h'.tokens.keys = h.tokens.keys ∨ h'.tokens.keys = h.tokens.keys.draw.2)
    (hnames : h'.namespaces = h.namespaces.modify n f) : Serves h r h' where
  keys := hkeys
  size := by rw [hopens, hnames, Array.size_modify]; rfl
  old k hk := by
    rw [hserved, namespaceAt, hnames, getD_modify]
    simp only [hk, and_true]
    rfl
  new k hk := by
    rw [namespaceAt, hnames, getD_modify, Array.size_modify, if_neg (by omega), if_neg (by omega)]
    exact getD_of_size_le hk

/-- Namespaces stay tidy. -/
lemma Serves.tidy (hs : Serves h r h') (ht : ∀ n, (h.namespaceAt n).Tidy) (n : Nat) :
    (h'.namespaceAt n).Tidy := by
  by_cases hn : n < h.namespaces.size
  · rw [hs.old n hn]
    exact (ht n).served n _ r
  · rw [hs.new n (by omega)]
    split <;> exact .empty _

lemma extendShape_names (h : Heap) (s : Nat) (key : String) :
    (h.extendShape s key).2.tokens.keys = h.tokens.keys ∧
      (h.extendShape s key).2.namespaces = h.namespaces := by
  rcases extendShape_cases h s key with ⟨next, -, he⟩ | ⟨-, he⟩ | ⟨-, he⟩ <;> rw [he] <;>
    exact ⟨rfl, rfl⟩

lemma setField_names (h : Heap) (o : Ref .inst) (key : String) (value : Value) :
    (h.setField o key value).tokens.keys = h.tokens.keys ∧
      (h.setField o key value).namespaces = h.namespaces := by
  unfold setField
  split
  · exact ⟨rfl, rfl⟩
  · exact extendShape_names h _ key

lemma serve_serves (h : Heap) (r : Request) : Serves h r (h.serve r) := by
  cases r with
  | newModule name => exact .opened rfl (fun _ _ _ => rfl) rfl rfl
  | newClass name => exact .opened rfl (fun _ _ _ => rfl) rfl rfl
  | instantiate cls => exact .of_eq rfl (fun _ _ _ => rfl) rfl rfl
  | newShape => exact .of_eq rfl (fun _ _ _ => rfl) rfl rfl
  | extendShape shape key =>
    exact .of_eq rfl (fun _ _ _ => rfl) (extendShape_names h shape key).1
      (extendShape_names h shape key).2
  | newFunction unit globals defaults =>
    dsimp only [serve]
    split <;> exact .of_eq rfl (fun _ _ _ => rfl) rfl rfl
  | newBuiltin name arity procedure => exact .of_eq rfl (fun _ _ _ => rfl) rfl rfl
  | newSource source => exact .of_eq rfl (fun _ _ _ => rfl) rfl rfl
  | setField object key value =>
    exact .of_eq rfl (fun _ _ _ => rfl) (setField_names h object key value).1
      (setField_names h object key value).2
  | assign n key value =>
    show Serves h _ (h.assign n key value)
    rw [assign]
    rcases hi : (h.namespaceAt n).indexOf? key with _ | i
    · refine .modified (n := n) (f := (·.append key value h.tokens.keys.draw.1)) rfl (fun k => ?_)
        (.inr rfl) rfl
      by_cases hk : n = k
      · subst hk
        rw [Namespace.served, if_pos rfl, if_pos rfl, Namespace.assigned_of_none hi]
      · rw [Namespace.served, if_neg hk, if_neg hk]
    · refine .modified (n := n) (f := (·.rebind i value)) rfl (fun k => ?_) (.inl rfl) rfl
      by_cases hk : n = k
      · subst hk
        rw [Namespace.served, if_pos rfl, if_pos rfl, Namespace.assigned_of_some hi]
      · rw [Namespace.served, if_neg hk, if_neg hk]
  | remove n key =>
    show Serves h _ (h.remove n key).2
    rw [remove]
    rcases hi : (h.namespaceAt n).indexOf? key with _ | i
    · refine .modified (n := n) (f := id) rfl (fun k => ?_) (.inl rfl) ?_
      swap
      · exact Array.ext_getElem? fun k => by simp [Array.getElem?_modify]
      by_cases hk : n = k
      · subst hk
        rw [Namespace.served, if_pos rfl, if_pos rfl, Namespace.removed_of_none hi]
        rfl
      · rw [Namespace.served, if_neg hk, if_neg hk]
    · refine .modified (n := n) (f := (·.vacate key i h.tokens.keys.draw.1)) rfl (fun k => ?_)
        (.inr rfl) rfl
      by_cases hk : n = k
      · subst hk
        rw [Namespace.served, if_pos rfl, if_pos rfl, Namespace.removed_of_some hi]
      · rw [Namespace.served, if_neg hk, if_neg hk]

/-! ### Sequences of requests -/

/-- The heap after some requests. -/
def serveAll (h : Heap) (rs : List Request) : Heap := rs.foldl serve h

lemma serveAll_append (h : Heap) (rs rs' : List Request) :
    h.serveAll (rs ++ rs') = (h.serveAll rs).serveAll rs' :=
  List.foldl_append

lemma serveAll_develops (h : Heap) (rs : List Request) : h.Develops (h.serveAll rs) := by
  induction rs generalizing h with
  | nil => exact .refl h
  | cons r rs ih => exact (serve_develops h r).trans (ih _)

/-- The namespaces are the given ordered maps, one each. -/
structure Holds (h : Heap) (ms : List OrderedMap) : Prop where
  size : h.namespaces.size = ms.length
  tidy : ∀ n, (h.namespaceAt n).Tidy
  bindings : ∀ n, (h.namespaceAt n).bindings = ms.getD n []

lemma holds_empty : ({} : Heap).Holds [] where
  size := rfl
  tidy n := by
    rw [namespaceAt_of_size_le (Nat.zero_le n)]
    exact .empty 0
  bindings n := by
    rw [namespaceAt_of_size_le (Nat.zero_le n)]
    rfl

namespace Holds

variable {ms : List OrderedMap}

lemma serve (hh : h.Holds ms) (r : Request) : (h.serve r).Holds (OrderedMap.serve ms r) := by
  have hs := serve_serves h r
  refine ⟨?_, fun n => ?_, fun n => ?_⟩
  · rw [hs.size, hh.size]
    rw [OrderedMap.serve, List.length_append, List.length_mapIdx]
    split <;> rfl
  · exact hs.tidy hh.tidy n
  · by_cases hn : n < h.namespaces.size
    · rw [hs.old n hn, (hh.tidy n).bindings_served, hh.bindings, OrderedMap.getD_serve_of_lt]
      exact hh.size ▸ hn
    · rw [hs.new n (by omega), OrderedMap.getD_serve_of_le (hh.size ▸ Nat.le_of_not_lt hn)]
      split <;> rfl

lemma serveAll (hh : h.Holds ms) (rs : List Request) :
    (h.serveAll rs).Holds (OrderedMap.serveAll ms rs) := by
  induction rs generalizing h ms with
  | nil => exact hh
  | cons r rs ih => exact ih (hh.serve r)

/-- A bound name keeps its slot while it is not removed. -/
lemma keepsIndex (hh : h.Holds ms) {n i : Nat} {key : String}
    (hi : (h.namespaceAt n).indexOf? key = some i) {rs : List Request} (hrs : .remove n key ∉ rs) :
    ((h.serveAll rs).namespaceAt n).indexOf? key = some i := by
  induction rs generalizing h ms with
  | nil => exact hi
  | cons r rs ih =>
    rw [List.mem_cons, not_or] at hrs
    refine ih (hh.serve r) ?_ hrs.2
    rw [(serve_serves h r).old n (lt_size_of_indexOf? hi)]
    exact Namespace.indexOf?_served hi (Ne.symm hrs.1) _

lemma keepsVacated (hh : h.Holds ms) {n i : Nat} (hv : (h.namespaceAt n).Vacated i)
    (rs : List Request) : ((h.serveAll rs).namespaceAt n).Vacated i := by
  induction rs generalizing h ms with
  | nil => exact hv
  | cons r rs ih =>
    refine ih (hh.serve r) ?_
    obtain ⟨key, hk⟩ := hv
    have hn : n < h.namespaces.size := by
      by_contra hc
      rw [namespaceAt_of_size_le (by omega)] at hk
      cases hk
    rw [(serve_serves h r).old n hn]
    exact Namespace.Vacated.served ⟨key, hk⟩ (hh.tidy n) n _ r

/-- Whoever has the slot of a name later is that name, and it has not been removed meanwhile. -/
lemma ownsIndex (hh : h.Holds ms) {n i : Nat} {key key' : String}
    (hi : (h.namespaceAt n).indexOf? key = some i) {rs : List Request}
    (hi' : ((h.serveAll rs).namespaceAt n).indexOf? key' = some i) :
    key' = key ∧ .remove n key ∉ rs := by
  induction rs generalizing h ms with
  | nil => exact ⟨(hh.tidy n).inj hi hi', List.not_mem_nil⟩
  | cons r rs ih =>
    have hn := lt_size_of_indexOf? hi
    by_cases hr : r = .remove n key
    · -- the slot is empty from here on
      subst hr
      have hv : ((h.serve (.remove n key)).namespaceAt n).Vacated i := by
        rw [(serve_serves h _).old n hn, Namespace.served, if_pos rfl]
        exact (hh.tidy n).vacated_removed hi _
      have hh' := hh.serve (.remove n key)
      exact absurd hi' ((hh'.keepsVacated hv rs).indexOf?_ne ((hh'.serveAll rs).tidy n) key')
    · have hi1 : ((h.serve r).namespaceAt n).indexOf? key = some i := by
        rw [(serve_serves h r).old n hn]
        exact Namespace.indexOf?_served hi hr _
      obtain ⟨hkey, hrs⟩ := ih (hh.serve r) hi1 hi'
      refine ⟨hkey, ?_⟩
      rw [List.mem_cons, not_or]
      exact ⟨Ne.symm hr, hrs⟩

end Holds

/-- While the source lasts, every namespace that is there has a keys version. -/
def Dated (h : Heap) : Prop := h.tokens.keys.Numbers h.namespaces.size h.keysToken

lemma dated_empty : ({} : Heap).Dated := .empty _

lemma Dated.serve (hd : h.Dated) (r : Request) : (h.serve r).Dated := by
  have hs := serve_serves h r
  refine TokenSource.Numbers.advance hd hs.keys fun n hn => ?_
  rw [keysToken, keysToken]
  by_cases hold : n < h.namespaces.size
  · rw [hs.old n hold]
    rcases Namespace.keysVersion_served (h.namespaceAt n) n h.tokens.keys.draw.1 r with
      ⟨hk, -⟩ | ⟨hk, -⟩
    · exact .inr ⟨hold, hk⟩
    · exact .inl hk
  · rw [hs.new n (by omega), if_pos hn]
    exact .inl rfl

lemma Dated.serveAll (hd : h.Dated) (rs : List Request) : (h.serveAll rs).Dated := by
  induction rs generalizing h with
  | nil => exact hd
  | cons r rs ih => exact ih (hd.serve r)

/-! ### Heaps made by requests -/

/-- The heap that some requests make of an empty one. -/
def madeBy (rs : List Request) : Heap := serveAll {} rs

lemma madeBy_append (rs rs' : List Request) : madeBy (rs ++ rs') = (madeBy rs).serveAll rs' :=
  serveAll_append {} rs rs'

lemma madeBy_holds (rs : List Request) : (madeBy rs).Holds (OrderedMap.serveAll [] rs) :=
  holds_empty.serveAll rs

lemma madeBy_wellFormed (rs : List Request) : (madeBy rs).WellFormed :=
  ((serveAll_develops {} rs).keeps wellFormed_empty).1

lemma madeBy_later (rs rs' : List Request) : Later (madeBy rs) (madeBy (rs ++ rs')) := by
  rw [madeBy_append]
  exact ((serveAll_develops _ rs').keeps (madeBy_wellFormed rs)).2

/-- While the source lasts, the versions of namespaces that are there have been handed out. -/
lemma issued_keysToken (rs rs' : List Request)
    (hroom : (madeBy (rs ++ rs')).tokens.keys.upcoming ≠ TokenSource.limit) {n : Nat}
    (hn : n < (madeBy rs).namespaces.size) :
    (madeBy rs).tokens.keys.Issued ((madeBy rs).keysToken n) := by
  have hroom' := TokenSource.ne_limit_of_issued (madeBy_later rs rs').keysIssued hroom
  have hd : (madeBy rs).Dated := dated_empty.serveAll rs
  exact (madeBy_wellFormed rs).versioned.keys.issued n (hd.numbered hroom' n hn)

/-- A version that a request gives to a namespace is new to the heap. -/
lemma keysToken_ne_of_changed {early : List Request} {r : Request} {n : Nat}
    (hne : (madeBy (early ++ [r])).keysToken n ≠ (madeBy early).keysToken n)
    (hn : n < (madeBy (early ++ [r])).namespaces.size)
    (hroom : (madeBy (early ++ [r])).tokens.keys.upcoming ≠ TokenSource.limit)
    (first mid : List Request) (hearly : early = first ++ mid) (m : Nat) :
    (madeBy first).keysToken m ≠ (madeBy (early ++ [r])).keysToken n := by
  intro hc
  have hnew := issued_keysToken (early ++ [r]) [] (by rwa [List.append_nil]) hn
  have hw := madeBy_wellFormed first
  -- a version handed out by then was the version of the same namespace ever since
  have hissued : (madeBy early).tokens.keys.Issued ((madeBy (early ++ [r])).keysToken n) := by
    rw [hearly]
    refine (madeBy_later first mid).keysIssued _ ?_
    rw [← hearly, ← hc]
    exact hw.versioned.keys.issued m (hc ▸ hnew.1)
  exact hne ((madeBy_later early [r]).keys n hissued).1.symm

/-- **Namespaces are insertion-ordered maps with slots that are never given out twice.** Every
reading is one of the ordered map that the requests make; the keys version changes just when the set
of bound names does, to one that no namespace had before. -/
theorem refines_orderedMap (rs : List Request)
    (hroom : (madeBy rs).tokens.keys.upcoming ≠ TokenSource.limit) :
    ((madeBy rs).namespaces.size = (OrderedMap.serveAll [] rs).length ∧
      ∀ n, ((madeBy rs).namespaceAt n).Represents ((OrderedMap.serveAll [] rs).getD n []) ∧
        ∀ key, ((madeBy rs).remove n key).1 = ((OrderedMap.serveAll [] rs).getD n []).lookup key) ∧
    (∀ early late, rs = early ++ late → ∀ n key i,
      ((madeBy early).namespaceAt n).indexOf? key = some i →
        (.remove n key ∉ late → ((madeBy rs).namespaceAt n).indexOf? key = some i) ∧
        ∀ key', ((madeBy rs).namespaceAt n).indexOf? key' = some i →
          key' = key ∧ .remove n key ∉ late) ∧
    (∀ early r late, rs = early ++ r :: late →
      (∀ n < (madeBy early).namespaces.size,
        ((madeBy (early ++ [r])).keysToken n ≠ (madeBy early).keysToken n ↔
          ((madeBy (early ++ [r])).namespaceAt n).contains ≠
            ((madeBy early).namespaceAt n).contains)) ∧
      ∀ n < (madeBy (early ++ [r])).namespaces.size,
        (madeBy (early ++ [r])).keysToken n ≠ (madeBy early).keysToken n →
          (madeBy (early ++ [r])).keysToken n ≠ 0 ∧
          ∀ first mid, early = first ++ mid → ∀ m,
            (madeBy first).keysToken m ≠ (madeBy (early ++ [r])).keysToken n) ∧
    (∀ early mid late, rs = early ++ mid ++ late →
      ∀ m < (madeBy early).namespaces.size, ∀ n < (madeBy (early ++ mid)).namespaces.size,
        (madeBy early).keysToken m = (madeBy (early ++ mid)).keysToken n →
          m = n ∧ ((madeBy (early ++ mid)).namespaceAt n).indexOf? =
            ((madeBy early).namespaceAt m).indexOf?) := by
  refine ⟨?_, ?_, ?_, ?_⟩
  · have hh := madeBy_holds rs
    refine ⟨hh.size, fun n => ?_⟩
    rw [← hh.bindings n]
    refine ⟨(hh.tidy n).represents, fun key => ?_⟩
    rw [(hh.tidy n).lookup_bindings, remove, Namespace.get?]
    split <;> next hi => rw [hi]; rfl
  · rintro early late rfl n key i hi
    rw [madeBy_append]
    have hh := madeBy_holds early
    exact ⟨fun hlate => hh.keepsIndex hi hlate, fun key' hi' => hh.ownsIndex hi hi'⟩
  · rintro early r late rfl
    have hrest : early ++ r :: late = early ++ [r] ++ late := by simp
    rw [hrest] at hroom
    have hroom' :=
      TokenSource.ne_limit_of_issued (madeBy_later (early ++ [r]) late).keysIssued hroom
    refine ⟨fun n hn => ?_, fun n hn hne => ?_⟩
    · have hserve : (madeBy (early ++ [r])).namespaceAt n =
          ((madeBy early).namespaceAt n).served n (madeBy early).tokens.keys.draw.1 r := by
        rw [madeBy_append]
        exact (serve_serves (madeBy early) r).old n hn
      have hold : (madeBy early).tokens.keys.Issued ((madeBy early).keysToken n) :=
        issued_keysToken early [r] hroom' hn
      rw [keysToken, keysToken, hserve]
      rcases Namespace.keysVersion_served ((madeBy early).namespaceAt n) n
        (madeBy early).tokens.keys.draw.1 r with ⟨hk, hc⟩ | ⟨hk, hc⟩
      · rw [hk, hc]
        exact ⟨fun h => absurd rfl h, fun h => absurd rfl h⟩
      · rw [hk]
        exact ⟨fun _ => hc, fun _ => hold.ne_draw⟩
    · refine ⟨(issued_keysToken _ late hroom hn).1, fun first mid hearly m => ?_⟩
      exact keysToken_ne_of_changed hne hn hroom' first mid hearly m
  · rintro early mid late rfl m hm n hn heq
    rw [List.append_assoc] at hroom
    have hissued := issued_keysToken early (mid ++ late) hroom hm
    obtain ⟨hk, hindex⟩ := (madeBy_later early mid).keys n (heq ▸ hissued)
    have hmn := (madeBy_wellFormed early).versioned.keys.inj m n (heq.trans hk.symm) hissued.1
    subst hmn
    exact ⟨rfl, hindex⟩

/-- A name bound, removed and bound again comes last, in a new slot. -/
theorem refines_orderedMap_readded :
    let rs : List Request :=
      [.newModule "m", .assign 0 "a" (.int 1), .assign 0 "b" (.int 2), .remove 0 "a",
        .assign 0 "a" (.int 3)]
    (madeBy rs).tokens.keys.upcoming ≠ TokenSource.limit ∧
      ((madeBy rs).namespaceAt 0).Represents [("b", .int 2), ("a", .int 3)] ∧
      ((madeBy (rs.take 2)).namespaceAt 0).indexOf? "a" = some 0 ∧
      ((madeBy rs).namespaceAt 0).indexOf? "a" ≠ some 0 := by
  intro rs
  have hroom : (madeBy rs).tokens.keys.upcoming ≠ TokenSource.limit := by decide +kernel
  have hindex : ((madeBy (rs.take 2)).namespaceAt 0).indexOf? "a" = some 0 := by decide +kernel
  obtain ⟨⟨-, hreads⟩, hslots, -⟩ := refines_orderedMap rs hroom
  refine ⟨hroom, (hreads 0).1, hindex, fun hc => ?_⟩
  have hlate := (hslots (rs.take 2) (rs.drop 2) rfl 0 "a" 0 hindex).2 "a" hc
  exact hlate.2 (by simp [rs])

end Heap

end AdaptiveVM
