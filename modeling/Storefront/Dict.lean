/-!
Ordered maps keyed by text: association lists in which a key has the value of its first entry.
Assigning to a key that is present keeps its place; a new key goes to the end.
-/

namespace Storefront

/-- An ordered map from text to `α`. -/
abbrev Dict (α : Type) : Type := List (String × α)

namespace Dict

variable {α : Type}

def get? : Dict α → String → Option α
  | [], _ => none
  | (j, a) :: d, k => if j = k then some a else get? d k

def keys (d : Dict α) : List String := d.map Prod.fst

def contains (d : Dict α) (k : String) : Bool := (get? d k).isSome

def insert : Dict α → String → α → Dict α
  | [], k, a => [(k, a)]
  | (j, b) :: d, k, a => if j = k then (j, a) :: d else (j, b) :: insert d k a

/-- `d` with the entries of `e` assigned in order. -/
def merge (d e : Dict α) : Dict α := e.foldl (fun d p => insert d p.1 p.2) d

def ofList (entries : List (String × α)) : Dict α := merge [] entries

theorem get?_insert (d : Dict α) (k j : String) (a : α) :
    get? (insert d k a) j = if k = j then some a else get? d j := by
  induction d with
  | nil => rfl
  | cons p d ih =>
    obtain ⟨i, b⟩ := p
    unfold insert
    split
    · next h => subst h; simp only [get?]; split <;> rfl
    · next h =>
      simp only [get?, ih]
      split
      · next hj => subst hj; rw [if_neg (Ne.symm h)]
      · rfl

theorem keys_insert (d : Dict α) (k : String) (a : α) :
    keys (insert d k a) = if k ∈ keys d then keys d else keys d ++ [k] := by
  induction d with
  | nil => rfl
  | cons p d ih =>
    obtain ⟨i, b⟩ := p
    unfold insert
    by_cases h : i = k
    · subst h; simp [keys]
    · rw [if_neg h]
      simp only [keys, List.map_cons, List.mem_cons, Ne.symm h, false_or] at ih ⊢
      rw [ih]
      split <;> simp [*]

theorem nodup_keys_insert {d : Dict α} (h : (keys d).Nodup) (k : String) (a : α) :
    (keys (insert d k a)).Nodup := by
  rw [keys_insert]
  split
  · exact h
  · next hk =>
    rw [List.nodup_append]
    exact ⟨h, List.nodup_cons.2 ⟨List.not_mem_nil, List.nodup_nil⟩,
      fun j hj i hi e => hk (List.mem_singleton.1 hi ▸ e ▸ hj)⟩

theorem nodup_keys_merge {d : Dict α} (h : (keys d).Nodup) (e : Dict α) :
    (keys (merge d e)).Nodup := by
  induction e generalizing d with
  | nil => exact h
  | cons p e ih => exact ih (nodup_keys_insert h p.1 p.2)

theorem get?_append (d e : Dict α) (k : String) :
    get? (d ++ e) k = (get? d k).or (get? e k) := by
  induction d with
  | nil => rfl
  | cons p d ih =>
    obtain ⟨j, a⟩ := p
    by_cases h : j = k
    · simp [get?, h]
    · simpa [get?, h] using ih

/-- A key has the last value that is assigned to it, or else the one that it had. -/
theorem get?_merge (d e : Dict α) (k : String) :
    get? (merge d e) k = (get? e.reverse k).or (get? d k) := by
  induction e generalizing d with
  | nil => rfl
  | cons p e ih =>
    obtain ⟨j, a⟩ := p
    show get? (merge (insert d j a) e) k = _
    rw [ih, get?_insert, List.reverse_cons, get?_append]
    by_cases h : j = k
    · simp [get?, h]
    · simp [get?, h]

theorem get?_ofList (entries : List (String × α)) (k : String) :
    get? (ofList entries) k = get? entries.reverse k :=
  (get?_merge [] entries k).trans (Option.or_none)

theorem eraseDups_filter (p : String → Bool) (l : List String) :
    (l.filter p).eraseDups = l.eraseDups.filter p := by
  induction hn : l.length using Nat.strongRecOn generalizing l with
  | ind n ih =>
    cases l with
    | nil => rfl
    | cons k l =>
      have hlt : (l.filter (!· == k)).length < n := by
        rw [← hn]
        exact Nat.lt_succ_of_le (List.length_filter_le _ l)
      have ih := ih _ hlt (l.filter (!· == k)) rfl
      rw [List.eraseDups_cons, List.filter_cons, List.filter_cons, ← ih, List.filter_filter]
      split
      · rw [List.eraseDups_cons, List.filter_filter]
        simp only [Bool.and_comm]
      · next hk =>
        have hfilter : l.filter (fun j => p j && !j == k) = l.filter p :=
          List.filter_congr fun j _ => by
            cases hj : p j with
            | false => rfl
            | true =>
              have hne : j ≠ k := fun h => hk (h ▸ hj)
              simpa using hne
        rw [hfilter]

/-- The keys of a merged map: those that were there, and then the new ones as they come. -/
theorem keys_merge (d e : Dict α) :
    keys (merge d e) = keys d ++ (keys e).eraseDups.filter fun k => k ∉ keys d := by
  rw [← eraseDups_filter]
  induction e generalizing d with
  | nil => exact (List.append_nil _).symm
  | cons p e ih =>
    obtain ⟨k, a⟩ := p
    show keys (merge (insert d k a) e) = keys d ++ ((k :: keys e).filter _).eraseDups
    rw [ih, keys_insert]
    by_cases hk : k ∈ keys d
    · rw [if_pos hk, List.filter_cons_of_neg (by simpa using hk)]
    · have hfilter : (keys e).filter (fun j => j ∉ keys d ++ [k]) =
          ((keys e).filter fun j => j ∉ keys d).filter (!· == k) := by
        rw [List.filter_filter]
        exact List.filter_congr fun j _ => by
          simp [Bool.beq_eq_decide_eq, and_comm]
      rw [if_neg hk, List.filter_cons_of_pos (by simpa using hk), List.eraseDups_cons, hfilter,
        List.append_assoc]
      rfl

theorem keys_ofList (entries : List (String × α)) :
    keys (ofList entries) = (keys entries).eraseDups := by
  rw [ofList, keys_merge]
  exact List.filter_eq_self.2 fun k _ => by simp [keys]

theorem nodup_keys_ofList (entries : List (String × α)) : (keys (ofList entries)).Nodup :=
  nodup_keys_merge (d := []) List.nodup_nil entries

theorem insert_of_not_mem {d : Dict α} {k : String} (h : k ∉ keys d) (a : α) :
    insert d k a = d ++ [(k, a)] := by
  induction d with
  | nil => rfl
  | cons p d ih =>
    obtain ⟨j, b⟩ := p
    rw [keys, List.map_cons, List.mem_cons, not_or] at h
    rw [insert, if_neg (Ne.symm h.1), ih h.2]
    rfl

/-- Assigning the value that a key has changes nothing. -/
theorem insert_of_get? {d : Dict α} {k : String} {a : α} (h : get? d k = some a) :
    insert d k a = d := by
  induction d with
  | nil => cases h
  | cons p d ih =>
    obtain ⟨j, b⟩ := p
    rw [get?] at h
    rw [insert]
    split at h
    · next hj => rw [if_pos hj, Option.some.inj h]
    · next hj => rw [if_neg hj, ih h]

theorem ofList_concat (entries : List (String × α)) (k : String) (a : α) :
    ofList (entries ++ [(k, a)]) = insert (ofList entries) k a := by
  rw [ofList, merge, List.foldl_append]
  rfl

theorem merge_of_nodup {d e : Dict α} (h : (keys (d ++ e)).Nodup) : merge d e = d ++ e := by
  induction e generalizing d with
  | nil => exact (List.append_nil d).symm
  | cons p e ih =>
    obtain ⟨k, a⟩ := p
    have hk : k ∉ keys d := fun hmem => by
      rw [keys, List.map_append, List.nodup_append] at h
      exact h.2.2 k hmem k List.mem_cons_self rfl
    show merge (insert d k a) e = _
    rw [insert_of_not_mem hk, ih (by simpa [keys] using h), List.append_assoc]
    rfl

/-- Entries with distinct keys are a map as they are. -/
theorem ofList_of_nodup {entries : List (String × α)} (h : (keys entries).Nodup) :
    ofList entries = entries :=
  merge_of_nodup h

theorem get?_eq_none_iff {d : Dict α} {k : String} : get? d k = none ↔ k ∉ keys d := by
  induction d with
  | nil => simp [get?, keys]
  | cons p d ih =>
    obtain ⟨j, a⟩ := p
    rw [get?, keys, List.map_cons, List.mem_cons, ← keys, not_or, ← ih]
    split
    · next h => simp [h]
    · next h => simp [Ne.symm h]

theorem mem_of_get? {d : Dict α} {k : String} {a : α} (h : get? d k = some a) : (k, a) ∈ d := by
  induction d with
  | nil => cases h
  | cons p d ih =>
    obtain ⟨j, b⟩ := p
    rw [get?] at h
    split at h
    · next hj => exact List.mem_cons.2 (.inl (by rw [hj, Option.some.inj h]))
    · exact List.mem_cons_of_mem _ (ih h)

theorem get?_of_mem {d : Dict α} (hd : (keys d).Nodup) {k : String} {a : α} (h : (k, a) ∈ d) :
    get? d k = some a := by
  induction d with
  | nil => cases h
  | cons p d ih =>
    obtain ⟨j, b⟩ := p
    obtain ⟨hj, hd⟩ : j ∉ keys d ∧ (keys d).Nodup := List.nodup_cons.1 hd
    rw [get?]
    rcases List.mem_cons.1 h with heq | h
    · cases heq
      exact if_pos rfl
    · have hne : j ≠ k := fun hjk => hj (List.mem_map.2 ⟨(k, a), h, hjk.symm⟩)
      rw [if_neg hne]
      exact ih hd h

theorem forall_mem_insert {P : α → Prop} {d : Dict α} (hd : ∀ p ∈ d, P p.2) (k : String) {a : α}
    (ha : P a) : ∀ p ∈ insert d k a, P p.2 := by
  induction d with
  | nil => exact List.forall_mem_singleton.2 ha
  | cons p d ih =>
    obtain ⟨j, b⟩ := p
    obtain ⟨hb, hd⟩ := List.forall_mem_cons.1 hd
    rw [insert]
    split
    · exact List.forall_mem_cons.2 ⟨ha, hd⟩
    · exact List.forall_mem_cons.2 ⟨hb, ih hd⟩

theorem forall_mem_merge {P : α → Prop} {d e : Dict α} (hd : ∀ p ∈ d, P p.2)
    (he : ∀ p ∈ e, P p.2) : ∀ p ∈ merge d e, P p.2 := by
  induction e generalizing d with
  | nil => exact hd
  | cons p e ih =>
    obtain ⟨hp, he⟩ := List.forall_mem_cons.1 he
    exact ih (forall_mem_insert hd p.1 hp) he

theorem forall_mem_ofList {P : α → Prop} {entries : List (String × α)}
    (h : ∀ p ∈ entries, P p.2) : ∀ p ∈ ofList entries, P p.2 :=
  forall_mem_merge (List.forall_mem_nil _) h

/-- Maps of the same keys in the same order differ in the value of a key or not at all. -/
theorem ext_of_nodup {d e : Dict α} (hd : (keys d).Nodup) (hkeys : keys d = keys e)
    (h : ∀ k, get? d k = get? e k) : d = e := by
  induction d generalizing e with
  | nil => exact (List.map_eq_nil_iff.1 hkeys.symm).symm
  | cons p d ih =>
    cases e with
    | nil => cases hkeys
    | cons q e =>
      obtain ⟨k, a⟩ := p
      obtain ⟨j, b⟩ := q
      obtain ⟨hj, htail⟩ : k = j ∧ keys d = keys e := List.cons.inj hkeys
      obtain ⟨hk, hd⟩ : k ∉ keys d ∧ (keys d).Nodup := List.nodup_cons.1 hd
      subst hj
      have hab : a = b := by simpa [get?] using h k
      have hrest : d = e := by
        refine ih hd htail fun i => ?_
        by_cases hi : k = i
        · subst hi
          rw [get?_eq_none_iff.2 hk, get?_eq_none_iff.2 (htail ▸ hk)]
        · simpa [get?, hi] using h i
      rw [hab, hrest]

theorem get?_reverse_of_nodup {d : Dict α} (h : (keys d).Nodup) (k : String) :
    get? d.reverse k = get? d k := by
  rw [← get?_ofList, ofList_of_nodup h]

theorem eraseDups_keys_of_nodup {d : Dict α} (h : (keys d).Nodup) :
    (keys d).eraseDups = keys d := by
  rw [← keys_ofList, ofList_of_nodup h]

/-- To merge a map is to merge the entries that it was made from. -/
theorem merge_ofList {d : Dict α} (h : (keys d).Nodup) (e : List (String × α)) :
    merge d (ofList e) = merge d e := by
  refine ext_of_nodup (nodup_keys_merge h _) ?keys fun k => ?value
  case keys =>
    rw [keys_merge, keys_merge, eraseDups_keys_of_nodup (nodup_keys_ofList e), keys_ofList]
  case value =>
    rw [get?_merge, get?_merge, get?_reverse_of_nodup (nodup_keys_ofList e), get?_ofList]

theorem ofList_append (entries more : List (String × α)) :
    ofList (entries ++ more) = merge (ofList entries) (ofList more) := by
  rw [merge_ofList (nodup_keys_ofList entries)]
  exact List.foldl_append

/-- What has been merged into a map has its place and value there already. -/
theorem merge_merge_self {d : Dict α} (h : (keys d).Nodup) (e : Dict α) :
    merge d (merge d e) = merge d e := by
  have hmerged : (keys (merge d e)).Nodup := nodup_keys_merge h e
  refine ext_of_nodup (nodup_keys_merge h _) ?keys fun k => ?value
  case keys =>
    have hnew : (keys (merge d e)).filter (fun k => k ∉ keys d) =
        (keys e).eraseDups.filter fun k => k ∉ keys d := by
      rw [keys_merge, List.filter_append, List.filter_eq_nil_iff.2 (by simp), List.nil_append,
        List.filter_filter]
      simp
    rw [keys_merge, eraseDups_keys_of_nodup hmerged, hnew, ← keys_merge]
  case value =>
    rw [get?_merge, get?_reverse_of_nodup hmerged, get?_merge]
    cases get? e.reverse k with
    | some a => rfl
    | none => cases get? d k <;> rfl

/-- In a map that has an entry for each of some keys that has a value, a key has its value. -/
theorem get?_filterMap (f : String → Option α) (ids : List String) (k : String) :
    get? (ids.filterMap fun i => (f i).map (i, ·)) k = if k ∈ ids then f k else none := by
  induction ids with
  | nil => rfl
  | cons i ids ih =>
    cases hi : f i with
    | none =>
      rw [List.filterMap_cons_none (by rw [hi]; rfl), ih]
      by_cases hk : k = i
      · subst hk
        simp [hi]
      · simp [hk]
    | some a =>
      rw [List.filterMap_cons_some (by rw [hi]; rfl), get?, ih]
      by_cases hk : i = k
      · subst hk
        simp [hi]
      · simp [hk, Ne.symm hk]

theorem get?_ofList_filterMap (f : String → Option α) (ids : List String) (k : String) :
    get? (ofList (ids.filterMap fun i => (f i).map (i, ·))) k =
      if k ∈ ids then f k else none := by
  rw [get?_ofList, ← List.filterMap_reverse, get?_filterMap]
  simp only [List.mem_reverse]

end Dict

end Storefront
