import ColumnConnector.Json.Decode
import ColumnConnector.Proofs.SortedMap

/-!
# Records read back

A record gives for each of its fields what was written there, and nothing for a field that was left
out (`fields?_record`).  `Restores` says of one value that it is read as it was written; this
carries over to optional parts and to lists.

The other way round, `Proper` values are those that a JSON text can hold, and `Yields` says what is
read of them.
-/

namespace ColumnConnector.Json

variable {α β : Type}

/-! ### Fields -/

/-- The fields of a record, without those that nothing is given for. -/
def present (given : List (String × Option Json)) : List (String × Json) :=
  given.flatMap fun g => optionalField g.1 g.2

theorem present_cons (name : String) (value : Option Json) (rest : List (String × Option Json)) :
    present ((name, value) :: rest) = optionalField name value ++ present rest := rfl

theorem mem_present {given : List (String × Option Json)} {e : String × Json} :
    e ∈ present given ↔ (e.1, some e.2) ∈ given := by
  induction given with
  | nil => simp [present]
  | cons g rest ih =>
    obtain ⟨name, value⟩ := g
    rw [present_cons, List.mem_append, ih]
    cases value with
    | none => simp [optionalField]
    | some j => simp [optionalField, Prod.ext_iff]

theorem lookup_present {given : List (String × Option Json)} (hnames : (given.map Prod.fst).Nodup)
    {g : String × Option Json} (hg : g ∈ given) : SortedMap.lookup g.1 (present given) = g.2 := by
  induction given with
  | nil => cases hg
  | cons first rest ih =>
    obtain ⟨name, value⟩ := first
    obtain ⟨hname, hrest⟩ := List.nodup_cons.1 hnames
    have habsent : SortedMap.lookup name (present rest) = none := by
      rw [SortedMap.lookup_eq_none_iff]
      intro hmem
      obtain ⟨e, he, heq⟩ := List.mem_map.1 hmem
      exact hname (List.mem_map.2 ⟨_, mem_present.1 he, heq⟩)
    rw [present_cons]
    rcases List.mem_cons.1 hg with rfl | hlater
    · cases value with
      | none => exact habsent
      | some j => simp [optionalField, SortedMap.lookup]
    · have hne : g.1 ≠ name := fun heq => hname (List.mem_map.2 ⟨g, hlater, heq⟩)
      cases value with
      | none => exact ih hrest hlater
      | some j => simpa [optionalField, SortedMap.lookup, hne] using ih hrest hlater

theorem nodup_present {given : List (String × Option Json)} (hnames : (given.map Prod.fst).Nodup) :
    ((present given).map Prod.fst).Nodup := by
  induction given with
  | nil => exact .nil
  | cons first rest ih =>
    obtain ⟨name, value⟩ := first
    obtain ⟨hname, hrest⟩ := List.nodup_cons.1 hnames
    rw [present_cons]
    cases value with
    | none => exact ih hrest
    | some j =>
      refine List.nodup_cons.2 ⟨fun hmem => ?_, ih hrest⟩
      obtain ⟨e, he, heq⟩ := List.mem_map.1 hmem
      exact hname (List.mem_map.2 ⟨_, mem_present.1 he, heq⟩)

theorem get?_present {given : List (String × Option Json)} (hnames : (given.map Prod.fst).Nodup)
    {g : String × Option Json} (hg : g ∈ given) :
    (SortedMap.ofList (present given)).get? g.1 = g.2 := by
  rw [SortedMap.get?_ofList (nodup_present hnames), lookup_present hnames hg]

/-- Each field comes back as what was given for it. -/
theorem fields?_record {given : List (String × Option Json)}
    (hnames : (given.map Prod.fst).Nodup) :
    (record (present given)).fields? (given.map Prod.fst) = some (given.map Prod.snd) := by
  show some ((given.map Prod.fst).map (SortedMap.ofList (present given)).get?) = _
  rw [List.map_map]
  exact congrArg some (List.map_congr_left fun g hg => get?_present hnames hg)

/-! ### Values that are read as they were written -/

/-- What is written for the value is not null, and the value is read from it. -/
structure Restores (write : α → Json) (read : Json → Option α) (a : α) : Prop where
  read_write : read (write a) = some a
  isNull_write : (write a).isNull = false

namespace Restores

variable {write : α → Json} {read : Json → Option α}

theorem optional?_some {a : α} (h : Restores write read a) :
    optional? read (some (write a)) = some (some a) := by
  obtain ⟨hread, hnull⟩ := h
  cases hj : write a with
  | null =>
    rw [hj] at hnull
    cases hnull
  | _ =>
    show (read _).map some = _
    rw [← hj, hread]
    rfl

theorem optional?_map {o : Option α} (h : ∀ a, o = some a → Restores write read a) :
    optional? read (o.map write) = some o := by
  cases o with
  | none => rfl
  | some a => exact (h a rfl).optional?_some

theorem optional?_elim {o : Option α} (h : ∀ a, o = some a → Restores write read a) :
    optional? read (some (o.elim .null write)) = some o := by
  cases o with
  | none => rfl
  | some a => exact (h a rfl).optional?_some

theorem list? {l : List α} (h : ∀ a ∈ l, Restores write read a) :
    Restores (fun l => .arr (l.map write)) (Json.list? read) l where
  read_write := by
    show (l.map write).mapM read = some l
    induction l with
    | nil => rfl
    | cons a rest ih =>
      obtain ⟨ha, hrest⟩ := List.forall_mem_cons.1 h
      rw [List.map_cons, List.mapM_cons, ha.read_write, ih hrest]
      rfl
  isNull_write := rfl

end Restores

theorem restores_string (s : String) : Restores .str string? s := ⟨rfl, rfl⟩

theorem intWithin?_of_le {low high n : Int} (hlow : low ≤ n) (hhigh : n ≤ high) :
    intWithin? low high (.int n) = some n :=
  if_pos ⟨hlow, hhigh⟩

theorem restores_count (n : UInt64) : Restores (fun n : UInt64 => .int n.toNat) count? n where
  read_write := by
    have hhigh := n.toNat_lt
    rw [count?, intWithin?_of_le (by omega) (by omega), Option.map_some, Int.toNat_natCast,
      UInt64.ofNat_toNat]
  isNull_write := rfl

/-! ### Values of JSON texts -/

/-- What a JSON text can hold: whole numbers of 64 bits, with or without a sign, and other numbers
only if they are finite. -/
inductive Proper : Json → Prop where
  | null : Proper .null
  | bool (b : Bool) : Proper (.bool b)
  | int {n : Int} : -9223372036854775808 ≤ n → n ≤ 18446744073709551615 → Proper (.int n)
  | float {x : Binary64} : x.isFinite = true → Proper (.float x)
  | str (s : String) : Proper (.str s)
  | arr {items : List Json} : (∀ j ∈ items, Proper j) → Proper (.arr items)
  | obj {fields : List (String × Json)} : (∀ e ∈ fields, Proper e.2) → Proper (.obj fields)

@[simp]
theorem proper_null : null.Proper := .null

@[simp]
theorem proper_bool (b : Bool) : (bool b).Proper := .bool b

@[simp]
theorem proper_str (s : String) : (str s).Proper := .str s

@[simp]
theorem proper_int_iff {n : Int} :
    (int n).Proper ↔ -9223372036854775808 ≤ n ∧ n ≤ 18446744073709551615 :=
  ⟨fun h => by cases h with | int hlow hhigh => exact ⟨hlow, hhigh⟩, fun h => .int h.1 h.2⟩

@[simp]
theorem proper_float_iff {x : Binary64} : (float x).Proper ↔ x.isFinite = true :=
  ⟨fun h => by cases h with | float hx => exact hx, .float⟩

@[simp]
theorem proper_arr_iff {items : List Json} : (arr items).Proper ↔ ∀ j ∈ items, j.Proper :=
  ⟨fun h => by cases h with | arr hitems => exact hitems, .arr⟩

@[simp]
theorem proper_obj_iff {fields : List (String × Json)} :
    (obj fields).Proper ↔ ∀ e ∈ fields, e.2.Proper :=
  ⟨fun h => by cases h with | obj hfields => exact hfields, .obj⟩

theorem proper_record {given : List (String × Option Json)}
    (h : ∀ g ∈ given, ∀ j, g.2 = some j → j.Proper) : (record (present given)).Proper := by
  apply Proper.obj
  intro e he
  exact h _ (mem_present.1 (SortedMap.mem_of_mem_ofList he)) e.2 rfl

theorem proper_optional {write : α → Json} (h : ∀ a, (write a).Proper) (o : Option α) :
    ∀ j, o.map write = some j → j.Proper := by
  intro j hj
  obtain ⟨a, -, rfl⟩ := Option.map_eq_some_iff.1 hj
  exact h a

theorem proper_list {write : α → Json} (h : ∀ a, (write a).Proper) (l : List α) :
    (arr (l.map write)).Proper :=
  .arr (List.forall_mem_map.2 fun a _ => h a)

/-- What is given for a field is part of the record. -/
theorem Proper.fields? {j j' : Json} (h : j.Proper) {names : List String}
    {given : List (Option Json)} (hgiven : j.fields? names = some given) (hmem : some j' ∈ given) :
    j'.Proper := by
  cases h with
  | obj hfields =>
    cases hgiven
    obtain ⟨name, -, hlookup⟩ := List.mem_map.1 hmem
    exact hfields _ (SortedMap.mem_of_lookup hlookup)
  | arr hitems =>
    rw [Json.fields?] at hgiven
    split at hgiven
    · cases hgiven
      rcases List.mem_append.1 hmem with hmem | hmem
      · obtain ⟨item, hitem, heq⟩ := List.mem_map.1 hmem
        cases heq
        exact hitems _ hitem
      · cases (List.mem_replicate.1 hmem).2
    · cases hgiven
  | _ => cases hgiven

section Reading

variable {read : Json → Option α} {a : α}

theorem exists_of_optional? {given : Option Json} (h : optional? read given = some (some a)) :
    ∃ j, given = some j ∧ read j = some a := by
  cases given with
  | none => cases h
  | some j =>
    refine ⟨j, rfl, ?_⟩
    cases j with
    | null => cases h
    | _ =>
      obtain ⟨a', hread, ha⟩ := Option.map_eq_some_iff.1 h
      cases ha
      exact hread

theorem exists_of_required? {given : Option Json} (h : required? read given = some a) :
    ∃ j, given = some j ∧ read j = some a :=
  Option.bind_eq_some_iff.1 h

theorem exists_of_defaulted? {standard : α} {given : Option Json}
    (h : defaulted? standard read given = some a) :
    (given = none ∧ a = standard) ∨ ∃ j, given = some j ∧ read j = some a := by
  cases given with
  | none =>
    cases h
    exact .inl ⟨rfl, rfl⟩
  | some j => exact .inr ⟨j, rfl, h⟩

/-- Each element of a list is read of one of the items. -/
theorem exists_of_list? {j : Json} {l : List α} (h : list? read j = some l) (ha : a ∈ l) :
    ∃ items, j = .arr items ∧ ∃ item ∈ items, read item = some a := by
  cases j with
  | arr items =>
    refine ⟨items, rfl, ?_⟩
    change items.mapM read = some l at h
    induction items generalizing l with
    | nil =>
      cases h
      cases ha
    | cons first rest ih =>
      rw [List.mapM_cons] at h
      obtain ⟨b, hb, hbind⟩ := Option.bind_eq_some_iff.1 h
      obtain ⟨bs, hbs, hpure⟩ := Option.bind_eq_some_iff.1 hbind
      cases hpure
      rcases List.mem_cons.1 ha with rfl | ha
      · exact ⟨first, List.mem_cons_self, hb⟩
      · obtain ⟨item, hitem, hread⟩ := ih ha hbs
        exact ⟨item, List.mem_cons_of_mem first hitem, hread⟩
  | _ => cases h

/-- What holds of everything read of a proper value holds of every element of a list. -/
theorem Proper.of_list? {j : Json} {l : List α} {P : α → Prop} (hj : j.Proper)
    (h : list? read j = some l) (hread : ∀ j a, Proper j → read j = some a → P a) :
    ∀ a ∈ l, P a := by
  intro a ha
  obtain ⟨items, rfl, item, hitem, ha⟩ := exists_of_list? h ha
  exact hread item a (proper_arr_iff.1 hj item hitem) ha

end Reading

end ColumnConnector.Json
