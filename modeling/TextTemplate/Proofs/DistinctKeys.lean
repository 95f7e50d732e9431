import TextTemplate.Toml.Document

/-!
# Keys of a document

A text that gives a key twice is no document. So in whatever a document holds, the keys of each
table are `Distinct`. Every way to build on a table keeps this, as long as what is put in has
distinct keys itself: a header (`openTable`, `openElement`) and a dotted key (`assign`). It follows
for the values that are read, by induction on the fuel (`distinct_read`), and for the draft line by
line, hence for the whole document (`distinct_of_parse?`).
-/
namespace TextTemplate.Toml

/-- No table in the value has a key twice. -/
inductive Value.Distinct : Value → Prop
  | text (text : String) : Distinct (.text text)
  | scalar (scalar : Scalar) : Distinct (.scalar scalar)
  | array {items : List Value} (h : ∀ item ∈ items, item.Distinct) : Distinct (.array items)
  | table {entries : List (String × Value)} (hkeys : (entries.map (·.1)).Nodup)
      (h : ∀ entry ∈ entries, entry.2.Distinct) : Distinct (.table entries)

/-- No table in the item has a key twice. -/
inductive Item.Distinct : Item → Prop
  | value {value : Value} (h : value.Distinct) : Distinct (.value value)
  | table {origin : Origin} {entries : List (String × Item)} (hkeys : (entries.map (·.1)).Nodup)
      (h : ∀ entry ∈ entries, entry.2.Distinct) : Distinct (.table origin entries)
  | tables {elements : List (List (String × Item))}
      (hkeys : ∀ element ∈ elements, (element.map (·.1)).Nodup)
      (h : ∀ element ∈ elements, ∀ entry ∈ element, entry.2.Distinct) : Distinct (.tables elements)

/-- The entries have distinct keys, and so have all tables in them. -/
structure DistinctItems (items : Items) : Prop where
  keys : (items.map (·.1)).Nodup
  items : ∀ entry ∈ items, entry.2.Distinct

/-! ## Entries -/

section Entries
variable {items : Items} {key : String} {item : Item}

theorem distinctItems_nil : DistinctItems [] :=
  ⟨List.nodup_nil, by simp⟩

theorem Item.Distinct.entries {origin : Origin} (h : (Item.table origin items).Distinct) :
    DistinctItems items := by
  cases h with
  | table hkeys hitems => exact ⟨hkeys, hitems⟩

theorem DistinctItems.table (h : DistinctItems items) (origin : Origin) :
    (Item.table origin items).Distinct :=
  .table h.keys h.items

theorem Item.Distinct.element {elements : List Items} (h : (Item.tables elements).Distinct)
    {element : Items} (helement : element ∈ elements) : DistinctItems element := by
  cases h with
  | tables hkeys hitems => exact ⟨hkeys element helement, hitems element helement⟩

theorem distinct_tables {elements : List Items} (h : ∀ element ∈ elements, DistinctItems element) :
    (Item.tables elements).Distinct :=
  .tables (fun element helement => (h element helement).keys)
    (fun element helement => (h element helement).items)

theorem mem_of_lookup {α : Type} {entries : List (String × α)} {key : String} {value : α}
    (h : entries.lookup key = some value) : (key, value) ∈ entries := by
  obtain ⟨before, after, rfl, -⟩ := List.lookup_eq_some_iff.mp h
  exact List.mem_append_right _ List.mem_cons_self

theorem DistinctItems.lookup (h : DistinctItems items) (hlookup : items.lookup key = some item) :
    item.Distinct :=
  h.items _ (mem_of_lookup hlookup)

theorem mem_put {entry : String × Item} (h : entry ∈ put key item items) :
    entry = (key, item) ∨ entry ∈ items := by
  fun_induction put key item items with
  | case1 => exact .inl (List.mem_singleton.mp h)
  | case2 old items =>
    rcases List.mem_cons.mp h with rfl | h
    · exact .inl rfl
    · exact .inr (List.mem_cons_of_mem _ h)
  | case3 k old items hne ih =>
    rcases List.mem_cons.mp h with rfl | h
    · exact .inr List.mem_cons_self
    · exact (ih h).imp_right (List.mem_cons_of_mem _)

theorem DistinctItems.put (h : DistinctItems items) (hitem : item.Distinct) :
    DistinctItems (put key item items) := by
  constructor
  case items =>
    intro entry hentry
    rcases mem_put hentry with rfl | hentry
    · exact hitem
    · exact h.items entry hentry
  case keys =>
    have hkeys := h.keys
    clear h
    fun_induction Toml.put key item items with
    | case1 => simp
    | case2 old items => exact hkeys
    | case3 k old items hne ih =>
      rw [List.map_cons, List.nodup_cons] at hkeys ⊢
      refine ⟨fun hmem => ?_, ih hkeys.2⟩
      obtain ⟨entry, hentry, hkey⟩ := List.mem_map.mp hmem
      rcases mem_put hentry with rfl | hentry
      · exact hne hkey.symm
      · exact hkeys.1 (List.mem_map.mpr ⟨entry, hentry, hkey⟩)

/-- An array of tables with another last element. -/
theorem distinct_tables_concat {elements : List Items} (h : (Item.tables elements).Distinct)
    {last : Items} (hlast : DistinctItems last) :
    (Item.tables (elements.dropLast ++ [last])).Distinct := by
  refine distinct_tables fun element helement => ?_
  rcases List.mem_append.mp helement with helement | helement
  · exact h.element (List.dropLast_subset _ helement)
  · rw [List.mem_singleton.mp helement]
    exact hlast

end Entries

/-! ## Headers and dotted keys -/

/-- The change of entries leaves distinct keys distinct. -/
def KeepsDistinct (change : Items → Option Items) : Prop :=
  ∀ items items', DistinctItems items → change items = some items' → DistinctItems items'

theorem KeepsDistinct.within {change : Items → Option Items} (hchange : KeepsDistinct change)
    (key : String) (origin : Origin) : KeepsDistinct (within key origin change) := by
  intro items items' hitems h
  unfold Toml.within at h
  split at h
  -- there is nothing at the key, a table, an array of tables, or a value
  case h_1 =>
    obtain ⟨entries, hentries, heq⟩ := Option.bind_eq_some_iff.mp h
    obtain rfl := Option.some.inj heq
    exact hitems.put ((hchange _ _ distinctItems_nil hentries).table origin)
  case h_2 origin entries hlookup =>
    obtain ⟨entries', hentries, heq⟩ := Option.bind_eq_some_iff.mp h
    obtain rfl := Option.some.inj heq
    exact hitems.put ((hchange _ _ (hitems.lookup hlookup).entries hentries).table origin)
  case h_3 elements hlookup =>
    have helements := hitems.lookup hlookup
    split at h
    · cases h
    case h_2 last hlast =>
      obtain ⟨last', hlast', heq⟩ := Option.bind_eq_some_iff.mp h
      obtain rfl := Option.some.inj heq
      have hdistinct := helements.element (List.mem_of_getLast? hlast)
      exact hitems.put (distinct_tables_concat helements (hchange _ _ hdistinct hlast'))
  case h_4 => cases h

theorem keepsDistinct_openTable (path : List String) : KeepsDistinct (openTable path) := by
  -- along the path the change is made within a table, at its end the table is opened
  induction path with
  | nil => exact fun _ _ _ h => nomatch h
  | cons key path ih =>
    cases path with
    | cons => exact ih.within key .implied
    | nil =>
      intro items items' hitems h
      unfold openTable at h
      split at h
      · obtain rfl := Option.some.inj h
        exact hitems.put (distinctItems_nil.table .header)
      case h_2 entries hlookup =>
        obtain rfl := Option.some.inj h
        exact hitems.put ((hitems.lookup hlookup).entries.table .header)
      · cases h

theorem keepsDistinct_openElement (path : List String) : KeepsDistinct (openElement path) := by
  induction path with
  | nil => exact fun _ _ _ h => nomatch h
  | cons key path ih =>
    cases path with
    | cons => exact ih.within key .implied
    | nil =>
      intro items items' hitems h
      unfold openElement at h
      split at h
      · obtain rfl := Option.some.inj h
        refine hitems.put (distinct_tables fun element helement => ?_)
        rw [List.mem_singleton.mp helement]
        exact distinctItems_nil
      case h_2 elements hlookup =>
        obtain rfl := Option.some.inj h
        refine hitems.put (distinct_tables fun element helement => ?_)
        rcases List.mem_append.mp helement with helement | helement
        · exact (hitems.lookup hlookup).element helement
        · rw [List.mem_singleton.mp helement]
          exact distinctItems_nil
      · cases h

theorem keepsDistinct_assign {value : Value} (hvalue : value.Distinct) (path : List String) :
    KeepsDistinct (assign path value) := by
  induction path with
  | nil => exact fun _ _ _ h => nomatch h
  | cons key path ih =>
    intro items items' hitems h
    cases path with
    | nil =>
      rw [assign] at h
      split at h
      · cases h
      · obtain rfl := Option.some.inj h
        exact hitems.put (.value hvalue)
    | cons next path =>
      unfold assign at h
      split at h
      case h_1 =>
        obtain ⟨entries, hentries, heq⟩ := Option.bind_eq_some_iff.mp h
        obtain rfl := Option.some.inj heq
        exact hitems.put ((ih _ _ distinctItems_nil hentries).table .dotted)
      case h_2 => cases h
      case h_3 origin entries hne hlookup =>
        obtain ⟨entries', hentries, heq⟩ := Option.bind_eq_some_iff.mp h
        obtain rfl := Option.some.inj heq
        exact hitems.put ((ih _ _ (hitems.lookup hlookup).entries hentries).table .dotted)
      case h_4 elements hlookup =>
        have helements := hitems.lookup hlookup
        split at h
        case h_1 last hlast =>
          obtain ⟨last', hlast', heq⟩ := Option.bind_eq_some_iff.mp h
          obtain rfl := Option.some.inj heq
          have hdistinct := helements.element (List.mem_of_getLast? hlast)
          exact hitems.put (distinct_tables_concat helements (ih _ _ hdistinct hlast'))
        case h_2 => cases h
      case h_5 => cases h

theorem keepsDistinct_assignUnder {value : Value} (hvalue : value.Distinct)
    (header path : List String) : KeepsDistinct (assignUnder header path value) := by
  induction header with
  | nil => exact keepsDistinct_assign hvalue path
  | cons name header ih => exact ih.within name .implied

/-! ## Finished items -/

theorem finishItems_eq_map (items : Items) :
    finishItems items = items.map fun entry => (entry.1, entry.2.finish) := by
  induction items with
  | nil => rfl
  | cons entry items ih => rw [finishItems, ih, List.map_cons]

theorem finishTables_eq_map (elements : List Items) :
    finishTables elements = elements.map fun element => .table (finishItems element) := by
  induction elements with
  | nil => rfl
  | cons element elements ih => rw [finishTables, ih, List.map_cons]

theorem distinct_finishItems {items : Items} (hkeys : (items.map (·.1)).Nodup)
    (h : ∀ entry ∈ items, entry.2.finish.Distinct) :
    (Value.table (finishItems items)).Distinct := by
  rw [finishItems_eq_map]
  constructor
  · rw [List.map_map]
    exact hkeys
  · intro entry hentry
    obtain ⟨item, hitem, rfl⟩ := List.mem_map.mp hentry
    exact h item hitem

theorem Item.Distinct.finish {item : Item} (h : item.Distinct) : item.finish.Distinct := by
  induction h with
  | value h =>
    rw [Item.finish]
    exact h
  | table hkeys _ ih =>
    rw [Item.finish]
    exact distinct_finishItems hkeys ih
  | tables hkeys _ ih =>
    rw [Item.finish, finishTables_eq_map]
    refine .array fun item hitem => ?_
    obtain ⟨element, helement, rfl⟩ := List.mem_map.mp hitem
    exact distinct_finishItems (hkeys element helement) (ih element helement)

theorem DistinctItems.finish {items : Items} (h : DistinctItems items) :
    (Value.table (finishItems items)).Distinct :=
  distinct_finishItems h.keys fun entry hentry => (h.items entry hentry).finish

/-! ## Reading -/

/-- What is read with the fuel has distinct keys. -/
structure DistinctRead (fuel : Nat) : Prop where
  value : ∀ levels cs value rest, value? fuel levels cs = some (value, rest) → value.Distinct
  items : ∀ levels cs items rest, items? fuel levels cs = some (items, rest) →
    ∀ item ∈ items, item.Distinct
  entries : ∀ levels items cs items' rest, DistinctItems items →
    entries? fuel levels items cs = some (items', rest) → DistinctItems items'

theorem DistinctRead.value_succ {fuel : Nat} (ih : DistinctRead fuel) (levels : Nat)
    (cs : List Char) (value : Value) (rest : List Char)
    (h : value? (fuel + 1) levels cs = some (value, rest)) : value.Distinct := by
  unfold value? at h
  split at h
  · cases h
  split at h
  · split at h
    · cases h
    · obtain ⟨cs', -, h⟩ := Option.bind_eq_some_iff.mp h
      obtain ⟨⟨items, rest'⟩, hitems, heq⟩ := Option.bind_eq_some_iff.mp h
      obtain ⟨rfl, -⟩ := Prod.mk.inj (Option.some.inj heq)
      exact .array (ih.items _ _ _ _ hitems)
  split at h
  · split at h
    · cases h
    · obtain ⟨cs', -, h⟩ := Option.bind_eq_some_iff.mp h
      obtain ⟨⟨entries, rest'⟩, hentries, heq⟩ := Option.bind_eq_some_iff.mp h
      obtain ⟨rfl, -⟩ := Prod.mk.inj (Option.some.inj heq)
      exact (ih.entries _ _ _ _ _ distinctItems_nil hentries).finish
  split at h
  · obtain ⟨_, -, heq⟩ := Option.map_eq_some_iff.mp h
    obtain ⟨rfl, -⟩ := Prod.mk.inj heq
    exact .text _
  · obtain ⟨_, -, heq⟩ := Option.map_eq_some_iff.mp h
    obtain ⟨rfl, -⟩ := Prod.mk.inj heq
    exact .scalar _

theorem DistinctRead.items_succ {fuel : Nat} (ih : DistinctRead fuel) (levels : Nat)
    (cs : List Char) (items : List Value) (rest : List Char)
    (h : items? (fuel + 1) levels cs = some (items, rest)) : ∀ item ∈ items, item.Distinct := by
  unfold items? at h
  split at h
  · obtain ⟨rfl, -⟩ := Prod.mk.inj (Option.some.inj h)
    simp
  obtain ⟨⟨value, rest'⟩, hvalue, h⟩ := Option.bind_eq_some_iff.mp h
  have hdistinct := ih.value _ _ _ _ hvalue
  obtain ⟨cs', -, h⟩ := Option.bind_eq_some_iff.mp h
  split at h
  · obtain ⟨_, -, h⟩ := Option.bind_eq_some_iff.mp h
    obtain ⟨⟨values, _⟩, hvalues, heq⟩ := Option.bind_eq_some_iff.mp h
    obtain ⟨rfl, -⟩ := Prod.mk.inj (Option.some.inj heq)
    exact List.forall_mem_cons.mpr ⟨hdistinct, ih.items _ _ _ _ hvalues⟩
  · obtain ⟨rfl, -⟩ := Prod.mk.inj (Option.some.inj h)
    exact List.forall_mem_singleton.mpr hdistinct
  · cases h

theorem DistinctRead.entries_succ {fuel : Nat} (ih : DistinctRead fuel) (levels : Nat)
    (items : Items) (cs : List Char) (items' : Items) (rest : List Char)
    (hitems : DistinctItems items)
    (h : entries? (fuel + 1) levels items cs = some (items', rest)) : DistinctItems items' := by
  unfold entries? at h
  split at h
  · obtain ⟨rfl, -⟩ := Prod.mk.inj (Option.some.inj h)
    exact hitems
  obtain ⟨⟨key, rest'⟩, -, h⟩ := Option.bind_eq_some_iff.mp h
  obtain ⟨cs', -, h⟩ := Option.bind_eq_some_iff.mp h
  split at h
  · obtain ⟨_, -, h⟩ := Option.bind_eq_some_iff.mp h
    obtain ⟨⟨value, _⟩, hvalue, h⟩ := Option.bind_eq_some_iff.mp h
    obtain ⟨assigned, hassign, h⟩ := Option.bind_eq_some_iff.mp h
    have hassigned :=
      keepsDistinct_assign (ih.value _ _ _ _ hvalue) key items assigned hitems hassign
    obtain ⟨_, -, h⟩ := Option.bind_eq_some_iff.mp h
    split at h
    · obtain ⟨_, -, h⟩ := Option.bind_eq_some_iff.mp h
      exact ih.entries _ _ _ _ _ hassigned h
    · split at h
      · obtain ⟨rfl, -⟩ := Prod.mk.inj (Option.some.inj h)
        exact hassigned
      · cases h
    · cases h
  · cases h

theorem distinct_read (fuel : Nat) : DistinctRead fuel := by
  -- the readers call each other with less fuel, so what is said of them is proved of all at once
  induction fuel with
  | zero =>
    constructor
    · intro levels cs value rest h
      cases h
    · intro levels cs items rest h
      cases h
    · intro levels items cs items' rest hitems h
      cases h
  | succ fuel ih => exact ⟨ih.value_succ, ih.items_succ, ih.entries_succ⟩

/-! ## Documents -/

theorem distinct_line? {draft draft' : Draft} {cs rest : List Char}
    (hdraft : DistinctItems draft.items) (h : draft.line? cs = some (draft', rest)) :
    DistinctItems draft'.items := by
  unfold Draft.line? at h
  split at h
  · obtain ⟨⟨path, rest'⟩, -, h⟩ := Option.bind_eq_some_iff.mp h
    obtain ⟨items, hitems, h⟩ := Option.bind_eq_some_iff.mp h
    obtain ⟨_, -, heq⟩ := Option.bind_eq_some_iff.mp h
    obtain ⟨rfl, -⟩ := Prod.mk.inj (Option.some.inj heq)
    exact keepsDistinct_openElement path _ _ hdraft hitems
  · obtain ⟨⟨path, rest'⟩, -, h⟩ := Option.bind_eq_some_iff.mp h
    obtain ⟨items, hitems, h⟩ := Option.bind_eq_some_iff.mp h
    obtain ⟨_, -, heq⟩ := Option.bind_eq_some_iff.mp h
    obtain ⟨rfl, -⟩ := Prod.mk.inj (Option.some.inj heq)
    exact keepsDistinct_openTable path _ _ hdraft hitems
  · obtain ⟨⟨key, rest'⟩, -, h⟩ := Option.bind_eq_some_iff.mp h
    dsimp only at h
    split at h
    · obtain ⟨⟨value, _⟩, hvalue, h⟩ := Option.bind_eq_some_iff.mp h
      obtain ⟨items, hitems, h⟩ := Option.bind_eq_some_iff.mp h
      obtain ⟨_, -, heq⟩ := Option.bind_eq_some_iff.mp h
      obtain ⟨rfl, -⟩ := Prod.mk.inj (Option.some.inj heq)
      have hdistinct := (distinct_read _).value _ _ _ _ hvalue
      exact keepsDistinct_assignUnder hdistinct draft.header key _ _ hdraft hitems
    · cases h

theorem distinct_lines? {fuel : Nat} {draft draft' : Draft} {cs : List Char}
    (hdraft : DistinctItems draft.items) (h : draft.lines? fuel cs = some draft') :
    DistinctItems draft'.items := by
  induction fuel generalizing draft cs with
  | zero => cases h
  | succ fuel ih =>
    unfold Draft.lines? at h
    obtain ⟨cs', -, h⟩ := Option.bind_eq_some_iff.mp h
    split at h
    · obtain rfl := Option.some.inj h
      exact hdraft
    · obtain ⟨⟨next, rest⟩, hline, h⟩ := Option.bind_eq_some_iff.mp h
      exact ih (distinct_line? hdraft hline) h

/-- No table of a document has a key twice. -/
theorem distinct_of_parse? {text : String} {entries : List (String × Value)}
    (h : parse? text = some entries) : (Value.table entries).Distinct := by
  obtain ⟨draft, hdraft, rfl⟩ := Option.map_eq_some_iff.mp h
  exact (distinct_lines? distinctItems_nil hdraft).finish

end TextTemplate.Toml
