import Leviculum.Map.Region

/-! A region that was opened and verified answers every question about itself: the indexes and the string table are
searched without a failure and hold exactly what is found, and every name a label refers to is there. -/

namespace Leviculum.Map

open Bytes Reading Lookup

theorem mapError_eq_ok {ε ε' α : Type} {f : ε → ε'} {x : Except ε α} {a : α} : mapError f x = .ok a ↔ x = .ok a := by
  cases x with
  | error e => exact ⟨nofun, nofun⟩
  | ok b => exact ⟨fun same => congrArg _ (Except.ok.inj same), fun same => congrArg _ (Except.ok.inj same)⟩

theorem TileId.key_inj {a b : TileId} : a.key = b.key ↔ a = b := by
  cases a
  cases b
  simp [TileId.key]

theorem textKey_inj {a b : Bytes} : textKey a = textKey b ↔ a = b :=
  List.map_inj_right fun _ _ same => UInt8.toNat_inj.mp same

/-! ### Sections -/

namespace Section

variable {bytes : Bytes} {strings : Nat} {s : Section}

theorem check_of_parse (parsed : parse bytes strings = .ok s) : s.bytes = bytes ∧ s.check strings = .ok () := by
  unfold parse at parsed
  obtain ⟨_, -, parsed⟩ := bind_eq_ok.mp parsed
  obtain ⟨_, -, parsed⟩ := bind_eq_ok.mp parsed
  split_ifs at parsed with sized
  obtain ⟨_, checked, parsed⟩ := bind_eq_ok.mp parsed
  obtain rfl := Except.ok.inj parsed
  exact ⟨rfl, checked⟩

/-- What a checked section promises: every string it refers to is one of the table's, and its alternate names are sorted
by their labels. -/
structure Checked (strings : Nat) (s : Section) : Prop where
  points : ∀ p ∈ s.rawPoints, p.string < strings
  lines : ∀ l ∈ s.rawLines, l.string < strings
  alternates : ∀ alt ∈ s.alternates, alt.2 < strings
  ascending : s.alternates.Pairwise (·.1 < ·.1)

theorem known_eq_ok {i : Nat} {u : Unit} : known strings i = .ok u ↔ i < strings := by
  unfold known
  rw [ensure_eq_ok, decide_eq_true_iff]

theorem Checked.of_check (ok : s.check strings = .ok ()) : s.Checked strings := by
  unfold check at ok
  obtain ⟨_, points, ok⟩ := bind_eq_ok.mp ok
  obtain ⟨_, lines, ok⟩ := bind_eq_ok.mp ok
  obtain ⟨_, sorted, -⟩ := bind_eq_ok.mp ok
  obtain ⟨items, length, lists, -⟩ := lists_of_ascend sorted
  have item : ∀ i alt, items[i]? = some alt → alt = s.alternateAt i ∧ alt.2 < strings := by
    intro i alt there
    obtain ⟨_, small, same⟩ := bind_eq_ok.mp (lists.reads i alt there)
    obtain rfl := Except.ok.inj same
    exact ⟨rfl, known_eq_ok.mp small⟩
  have all : items = s.alternates := by
    apply List.ext_getElem?
    intro i
    unfold Section.alternates
    rw [List.getElem?_map, ← length]
    by_cases inside : i < items.length
    · rw [List.getElem?_range inside, List.getElem?_eq_getElem inside, (item i _ (List.getElem?_eq_getElem inside)).1]
      rfl
    · simp [inside]
  refine ⟨?_, ?_, ?_, ?_⟩
  · intro p member
    obtain ⟨n, inside, rfl⟩ := List.mem_iff_getElem.mp member
    have there : (s.rawPoints[n], n) ∈ s.rawPoints.zipIdx := by simp [List.mem_zipIdx_iff_getElem?]
    obtain ⟨_, small, -⟩ := bind_eq_ok.mp (forM_eq_ok.mp points _ there)
    exact known_eq_ok.mp small
  · intro l member
    exact known_eq_ok.mp (forM_eq_ok.mp lines l member)
  · intro alt member
    rw [← all] at member
    obtain ⟨i, inside, rfl⟩ := List.mem_iff_getElem.mp member
    exact (item i _ (List.getElem?_eq_getElem inside)).2
  · rw [← all]
    exact lists.ascending

theorem Checked.alternate_eq_some (checked : s.Checked strings) (n string : Nat) :
    s.alternate n = some string ↔ (n, string) ∈ s.alternates := by
  have lists : Lists (ε := LabelError) (fun i => .ok (s.alternateAt i)) Prod.fst s.alternates := by
    refine ⟨?_, checked.ascending⟩
    intro i alt there
    unfold Section.alternates at there
    rw [List.getElem?_map, Option.map_eq_some_iff] at there
    obtain ⟨j, range, rfl⟩ := there
    rw [List.getElem?_eq_some_iff] at range
    obtain ⟨_, rfl⟩ := range
    rw [List.getElem_range]
  have count : s.alternates.length = s.alts := by
    unfold Section.alternates
    rw [List.length_map, List.length_range]
  obtain ⟨answer, found, exactly⟩ := lists.search_spec n
  rw [count] at found
  unfold alternate
  rw [found]
  constructor
  · intro some_
    match answer, exactly, some_ with
    | some (i, alt), exactly, some_ =>
      obtain ⟨there, rfl⟩ := (exactly i alt).mp rfl
      obtain rfl := Option.some.inj some_
      exact List.mem_of_getElem? there
  · intro member
    obtain ⟨i, there⟩ := List.getElem?_of_mem member
    rw [(exactly i (n, string)).mpr ⟨there, rfl⟩]

end Section

namespace Region

variable {r : Region}

/-! ### The indexes -/

/-- Every entry of an index is read, and the search finds exactly the one of a tile. -/
structure Indexes (entryOf : Nat → Except RegionError Entry) (count : Nat)
    (search : TileId → Except RegionError (Option Entry)) : Prop where
  entry : ∀ n, n < count → ∃ e, entryOf n = .ok e
  search : ∀ id, ∃ found, search id = .ok found ∧ ∀ e, found = some e ↔ ∃ n < count, entryOf n = .ok e ∧ e.id = id

theorem mem_of_lists {entryOf : Nat → Except RegionError Entry} {items : List Entry}
    (lists : Lists entryOf (·.id.key) items) (e : Entry) : e ∈ items ↔ ∃ n < items.length, entryOf n = .ok e := by
  constructor
  · intro member
    obtain ⟨n, there⟩ := List.getElem?_of_mem member
    exact ⟨n, (List.getElem?_eq_some_iff.mp there).1, lists.reads n e there⟩
  · rintro ⟨n, inside, read⟩
    have same := lists.reads n _ (List.getElem?_eq_getElem inside)
    rw [read] at same
    rw [Except.ok.inj same]
    exact List.getElem_mem inside

theorem indexes_of_lists {index count : Nat} {items : List Entry}
    (lists : Lists (r.entryIn index count) (·.id.key) items) (length : items.length = count) :
    Indexes (r.entryIn index count) count (r.findIn index count) where
  entry n inside := ⟨_, lists.reads n _ (List.getElem?_eq_getElem (by omega))⟩
  search id := by
    obtain ⟨answer, found, exactly⟩ := lists.search_spec id.key
    rw [length] at found
    refine ⟨answer.map (·.2), ?_, ?_⟩
    · unfold findIn
      rw [found]
      rfl
    · intro e
      constructor
      · intro some_
        obtain ⟨⟨n, a⟩, here, rfl⟩ := Option.map_eq_some_iff.mp some_
        obtain ⟨there, same⟩ := (exactly n a).mp here
        have inside := (List.getElem?_eq_some_iff.mp there).1
        exact ⟨n, by omega, lists.reads n a there, TileId.key_inj.mp same⟩
      · rintro ⟨n, inside, read, rfl⟩
        obtain ⟨m, there⟩ := List.getElem?_of_mem ((mem_of_lists lists e).mpr ⟨n, by omega, read⟩)
        rw [(exactly m e).mpr ⟨there, rfl⟩]
        rfl

/-! ### The string table -/

theorem tableString_eq_ok {heads bytes s : Bytes} {n : Nat} :
    tableString heads bytes n = .ok s ↔ leAt heads (n * 4) 4 ≤ leAt heads (n * 4 + 4) 4 ∧
      slice? bytes (leAt heads (n * 4) 4) (leAt heads (n * 4 + 4) 4 - leAt heads (n * 4) 4) = some s ∧
      s.validUtf8 = true := by
  unfold tableString
  simp only [bind_eq_ok, ensure_eq_ok, orFail_eq_ok, decide_eq_true_iff]
  constructor
  · rintro ⟨_, order, t, sliced, _, valid, same⟩
    obtain rfl := Except.ok.inj same
    exact ⟨order, sliced, valid⟩
  · rintro ⟨order, sliced, valid⟩
    exact ⟨(), order, s, sliced, (), valid, rfl⟩

theorem readString_of_table {l : LabelTables} {table : Bytes} (own : r.header.labels = some l)
    (read : readAt r.storage l.table l.tableLen = .ok table) (room : (l.strings + 1) * 4 ≤ l.tableLen) {n : Nat}
    (inside : n < l.strings) {s : Bytes}
    (ok : tableString (table.take ((l.strings + 1) * 4)) (table.drop ((l.strings + 1) * 4)) n = .ok s) :
    r.readString n = .ok s := by
  have sliced := orFail_eq_ok.mp read
  have long := length_of_slice? sliced
  obtain ⟨order, taken, valid⟩ := tableString_eq_ok.mp ok
  have first : leAt (table.take ((l.strings + 1) * 4)) (n * 4) 4 = leAt r.storage (l.table + n * 4) 4 := by
    rw [leAt_take (by omega), leAt_of_slice? sliced (by omega)]
  have second : leAt (table.take ((l.strings + 1) * 4)) (n * 4 + 4) 4 = leAt r.storage (l.table + n * 4 + 4) 4 := by
    rw [leAt_take (by omega), leAt_of_slice? sliced (by omega), Nat.add_assoc]
  have pair := slice?_of_slice? sliced (by omega : n * 4 + 8 ≤ l.tableLen)
  have there : slice? table (n * 4) 8 = some ((table.drop (n * 4)).take 8) := slice?_eq_some.mpr ⟨by omega, rfl⟩
  rw [there] at pair
  have from_ : leAt ((table.drop (n * 4)).take 8) 0 4 = leAt r.storage (l.table + n * 4) 4 := by
    rw [leAt_of_slice? pair.symm (by omega), Nat.add_zero]
  have to_ : leAt ((table.drop (n * 4)).take 8) 4 4 = leAt r.storage (l.table + n * 4 + 4) 4 := by
    rw [leAt_of_slice? pair.symm (by omega)]
  rw [first, second] at taken order
  have within := (slice?_eq_some.mp taken).1
  rw [List.length_drop, long] at within
  rw [slice?_drop (by omega), slice?_of_slice? sliced (by omega), ← Nat.add_assoc] at taken
  have range : r.stringRange n = .ok (l.table + (l.strings + 1) * 4 + leAt r.storage (l.table + n * 4) 4,
      leAt r.storage (l.table + n * 4 + 4) 4 - leAt r.storage (l.table + n * 4) 4) := by
    unfold stringRange readAt
    rw [own]
    simp only [orFail, ok_bind, ← pair, from_, to_, inside, decide_true, ensure, if_true]
    rw [if_pos (by simp only [Bool.and_eq_true, decide_eq_true_iff]; omega)]
    rfl
  unfold readString readAt
  rw [range]
  simp only [ok_bind, taken, orFail, valid, ensure, if_true]
  rfl

theorem strings_of_check {l : LabelTables} {table : Bytes} (own : r.header.labels = some l)
    (read : readAt r.storage l.table l.tableLen = .ok table) (checked : checkStrings table l.strings = .ok ()) :
    ∃ items : List Bytes, items.length = l.strings ∧ Lists r.readString textKey items := by
  unfold checkStrings at checked
  obtain ⟨_, room, checked⟩ := bind_eq_ok.mp checked
  obtain ⟨_, sorted, -⟩ := bind_eq_ok.mp checked
  obtain ⟨items, length, lists, -⟩ := lists_of_ascend sorted
  rw [ensure_eq_ok, decide_eq_true_iff, length_of_slice? (orFail_eq_ok.mp read)] at room
  refine ⟨items, length, ?_, lists.ascending⟩
  intro n s there
  have inside := (List.getElem?_eq_some_iff.mp there).1
  exact readString_of_table own read room (by omega) (lists.reads n s there)

theorem findString_of_lists {items : List Bytes} (lists : Lists r.readString textKey items)
    (length : items.length = r.stringCount) (name : Bytes) :
    ∃ found, r.findString name = .ok found ∧ ∀ n, found = some n ↔ n < r.stringCount ∧ r.readString n = .ok name := by
  obtain ⟨answer, found, exactly⟩ := lists.search_spec (textKey name)
  rw [length] at found
  refine ⟨answer.map (·.1), ?_, ?_⟩
  · unfold findString
    rw [found]
    rfl
  · intro n
    constructor
    · intro some_
      obtain ⟨⟨m, text⟩, here, rfl⟩ := Option.map_eq_some_iff.mp some_
      obtain ⟨there, same⟩ := (exactly m text).mp here
      obtain rfl := textKey_inj.mp same
      have inside := (List.getElem?_eq_some_iff.mp there).1
      exact ⟨by omega, lists.reads m text there⟩
    · rintro ⟨inside, read⟩
      have there := List.getElem?_eq_getElem (by omega : n < items.length)
      have same := lists.reads n _ there
      rw [read] at same
      rw [← Except.ok.inj same] at there
      rw [(exactly n name).mpr ⟨there, rfl⟩]
      rfl

/-! ### Tiles and their names -/

theorem fixture_of_find {id : TileId} {e : Entry} {blob : Bytes} {fx : Fixture} (found : r.find id = .ok (some e))
    (read : r.readTile e = .ok blob) (checked : checkTile id blob = .ok fx) : r.fixture id = .ok (some fx) := by
  unfold fixture
  rw [found, ok_bind]
  dsimp only
  rw [orFail_eq_ok.mp read]
  show (checkTile id blob >>= fun fx => _) = _
  rw [checked]
  rfl

/-- The names of a tile: all of them are in the string table, an alternate name is found exactly where there is one, and
every line label is the name of a line of the tile. -/
structure Names (r : Region) (id : TileId) (s : Section) : Prop where
  points : ∀ p ∈ s.rawPoints, ∃ text, r.readString p.string = .ok text
  lines : ∀ l ∈ s.rawLines, ∃ text, r.readString l.string = .ok text
  alternates : ∀ alt ∈ s.alternates, ∃ text, r.readString alt.2 = .ok text
  alternate : ∀ n string, s.alternate n = some string ↔ (n, string) ∈ s.alternates
  features : ∃ fx, r.fixture id = .ok (some fx) ∧
    ∀ label ∈ s.lineLabels, ∃ f, fx.features[label.2.feature]? = some f ∧ f.kind = .line

theorem names_of_verifySection {strings : Nat} {e : Entry} (ok : r.verifySection strings e = .ok ())
    (texts : ∀ n, n < strings → ∃ text, r.readString n = .ok text) :
    ∃ bytes s, r.readTile e = .ok bytes ∧ Section.parse bytes strings = .ok s ∧ r.Names e.id s := by
  unfold verifySection at ok
  obtain ⟨bytes, own, ok⟩ := bind_eq_ok.mp ok
  obtain ⟨found, search, ok⟩ := bind_eq_ok.mp ok
  obtain ⟨tile, some_, ok⟩ := bind_eq_ok.mp ok
  obtain ⟨blob, read, ok⟩ := bind_eq_ok.mp ok
  obtain ⟨fx, checked, ok⟩ := bind_eq_ok.mp ok
  obtain ⟨s, labelled, -⟩ := bind_eq_ok.mp ok
  unfold checkLabels at labelled
  obtain ⟨s', parsed, labelled⟩ := bind_eq_ok.mp labelled
  obtain ⟨_, features, labelled⟩ := bind_eq_ok.mp labelled
  obtain rfl := Except.ok.inj labelled
  rw [orFail_eq_ok] at some_
  subst some_
  rw [mapError_eq_ok] at parsed
  have sound := Section.Checked.of_check (Section.check_of_parse parsed).2
  refine ⟨bytes, s', own, parsed, ?_, ?_, ?_, sound.alternate_eq_some, fx, fixture_of_find search read checked, ?_⟩
  · exact fun p member => texts _ (sound.points p member)
  · exact fun l member => texts _ (sound.lines l member)
  · exact fun alt member => texts _ (sound.alternates alt member)
  · intro label member
    have isLine := ensure_eq_ok.mp (forM_eq_ok.mp features label member)
    rw [List.getElem?_map] at isLine
    cases there : fx.features[label.2.feature]? with
    | none => rw [there] at isLine; cases isLine
    | some f =>
      rw [there] at isLine
      exact ⟨f, rfl, of_decide_eq_true isLine⟩

def sectionCount (r : Region) : Nat := r.header.labels.elim 0 (·.sections)

/-- A region that answers: the searches never fail and find exactly what the indexes and the table hold, and what is
found is read and checked without a failure. -/
structure Answers (r : Region) : Prop where
  tiles : Indexes r.entry r.header.tiles r.find
  sections : Indexes r.labelEntry r.sectionCount r.findLabels
  fixture : ∀ id, ∃ found, r.fixture id = .ok found ∧
    (found.isSome = true ↔ ∃ n < r.header.tiles, ∃ e, r.entry n = .ok e ∧ e.id = id)
  labels : ∀ id, ∃ found, r.labels id = .ok found ∧
    (found.isSome = true ↔ ∃ n < r.sectionCount, ∃ e, r.labelEntry n = .ok e ∧ e.id = id) ∧
    ∀ s, found = some s → r.Names id s
  string : ∀ n, n < r.stringCount → ∃ text, r.readString n = .ok text
  findString : ∀ name, ∃ found, r.findString name = .ok found ∧
    ∀ n, found = some n ↔ n < r.stringCount ∧ r.readString n = .ok name

theorem Indexes.reads {β : Type} {entryOf : Nat → Except RegionError Entry} {count : Nat}
    {search : TileId → Except RegionError (Option Entry)} (indexes : Indexes entryOf count search) (id : TileId)
    {read : TileId → Except RegionError (Option β)} {good : β → Prop} (absent : search id = .ok none → read id = .ok none)
    (present : ∀ e, search id = .ok (some e) → (∃ n < count, entryOf n = .ok e) → e.id = id →
      ∃ b, read id = .ok (some b) ∧ good b) :
    ∃ found, read id = .ok found ∧ (found.isSome = true ↔ ∃ n < count, ∃ e, entryOf n = .ok e ∧ e.id = id) ∧
      ∀ b, found = some b → good b := by
  obtain ⟨answer, ok, exactly⟩ := indexes.search id
  cases answer with
  | none =>
    refine ⟨none, absent ok, ⟨nofun, ?_⟩, nofun⟩
    rintro ⟨n, inside, e, read, same⟩
    exact nomatch (exactly e).mpr ⟨n, inside, read, same⟩
  | some e =>
    obtain ⟨n, inside, entry, same⟩ := (exactly e).mp rfl
    obtain ⟨b, there, fine⟩ := present e ok ⟨n, inside, entry⟩ same
    refine ⟨some b, there, ⟨fun _ => ⟨n, inside, e, entry, same⟩, fun _ => rfl⟩, ?_⟩
    rintro _ ⟨⟩
    exact fine

theorem answers_of_verify (verified : r.verify = .ok ()) : r.Answers := by
  unfold verify at verified
  obtain ⟨_, tiles, verified⟩ := bind_eq_ok.mp verified
  obtain ⟨entries, length, lists, sound⟩ := lists_of_ascend tiles
  have indexed : Indexes r.entry r.header.tiles r.find := indexes_of_lists lists length
  have fixtures : ∀ id, ∃ found, r.fixture id = .ok found ∧
      (found.isSome = true ↔ ∃ n < r.header.tiles, ∃ e, r.entry n = .ok e ∧ e.id = id) := by
    intro id
    have reads : ∃ found, r.fixture id = .ok found ∧
        (found.isSome = true ↔ ∃ n < r.header.tiles, ∃ e, r.entry n = .ok e ∧ e.id = id) ∧
          ∀ fx, found = some fx → True := by
      refine indexed.reads id (fun none_ => by unfold fixture; rw [none_]; rfl) ?_
      rintro e found ⟨n, inside, entry⟩ rfl
      have verified := sound e ((mem_of_lists lists e).mpr ⟨n, by omega, entry⟩)
      unfold verifyTile at verified
      obtain ⟨blob, read, verified⟩ := bind_eq_ok.mp verified
      obtain ⟨fx, checked, -⟩ := bind_eq_ok.mp verified
      exact ⟨fx, fixture_of_find found read checked, trivial⟩
    obtain ⟨found, ok, exactly, -⟩ := reads
    exact ⟨found, ok, exactly⟩
  cases own : r.header.labels with
  | none =>
    have noStrings : r.stringCount = 0 := by unfold stringCount; rw [own]; rfl
    have noSections : r.sectionCount = 0 := by unfold sectionCount; rw [own]; rfl
    have nothing : ∀ id, r.findLabels id = .ok none := by intro id; unfold findLabels; rw [own]
    refine ⟨indexed, ⟨?_, ?_⟩, fixtures, ?_, ?_, ?_⟩
    · intro n inside
      omega
    · refine fun id => ⟨none, nothing id, fun e => ⟨nofun, ?_⟩⟩
      rintro ⟨n, inside, -⟩
      omega
    · refine fun id => ⟨none, ?_, ⟨nofun, ?_⟩, nofun⟩
      · unfold labels
        rw [nothing]
        rfl
      · rintro ⟨n, inside, -⟩
        omega
    · intro n inside
      omega
    · intro name
      refine ⟨none, ?_, fun n => ⟨nofun, fun ⟨inside, _⟩ => by omega⟩⟩
      unfold findString
      rw [noStrings]
      rfl
  | some l =>
    rw [own] at verified
    obtain ⟨table, read, verified⟩ := bind_eq_ok.mp verified
    obtain ⟨_, checked, sections⟩ := bind_eq_ok.mp verified
    have stringCount_eq : r.stringCount = l.strings := by unfold stringCount; rw [own]; rfl
    have sectionCount_eq : r.sectionCount = l.sections := by unfold sectionCount; rw [own]; rfl
    have labelEntry_eq : r.labelEntry = r.entryIn l.index l.sections := by
      funext n
      unfold labelEntry
      rw [own]
      rfl
    have findLabels_eq : r.findLabels = r.findIn l.index l.sections := by
      funext id
      unfold findLabels
      rw [own]
    obtain ⟨strings, stringLength, stringLists⟩ := strings_of_check own read checked
    have texts : ∀ n, n < l.strings → ∃ text, r.readString n = .ok text := fun n inside =>
      ⟨_, stringLists.reads n _ (List.getElem?_eq_getElem (by omega))⟩
    obtain ⟨labelEntries, labelLength, labelLists, named⟩ := lists_of_ascend sections
    have labelIndexed : Indexes r.labelEntry r.sectionCount r.findLabels := by
      rw [findLabels_eq, sectionCount_eq, labelEntry_eq]
      rw [labelEntry_eq] at labelLists
      exact indexes_of_lists labelLists labelLength
    refine ⟨indexed, labelIndexed, fixtures, ?_, ?_, findString_of_lists stringLists (by omega)⟩
    · intro id
      refine labelIndexed.reads id (fun none_ => by unfold labels; rw [none_]; rfl) ?_
      rintro e found ⟨n, inside, entry⟩ rfl
      obtain ⟨bytes, s, own', parsed, names⟩ := names_of_verifySection
        (named e ((mem_of_lists labelLists e).mpr ⟨n, by omega, entry⟩)) texts
      refine ⟨s, ?_, names⟩
      unfold labels
      rw [found, ok_bind]
      dsimp only
      rw [orFail_eq_ok.mp own', stringCount_eq]
      show (mapError _ (Section.parse bytes l.strings) >>= fun s => _) = _
      rw [parsed]
      rfl
    · intro n inside
      exact texts n (by omega)

theorem dataEnd_le {storage : Bytes} (opened : openRegion storage = .ok r) :
    r.storage = storage ∧ r.header.len = storage.length ∧ r.dataEnd ≤ storage.length := by
  unfold openRegion at opened
  obtain ⟨_, -, opened⟩ := bind_eq_ok.mp opened
  obtain ⟨head, -, opened⟩ := bind_eq_ok.mp opened
  obtain ⟨version, -, opened⟩ := bind_eq_ok.mp opened
  obtain ⟨first, -, opened⟩ := bind_eq_ok.mp opened
  obtain ⟨_, -, opened⟩ := bind_eq_ok.mp opened
  obtain ⟨b, -, opened⟩ := bind_eq_ok.mp opened
  obtain ⟨header, -, opened⟩ := bind_eq_ok.mp opened
  obtain ⟨_, long, opened⟩ := bind_eq_ok.mp opened
  obtain ⟨_, index, opened⟩ := bind_eq_ok.mp opened
  obtain ⟨dataEnd, blobs, opened⟩ := bind_eq_ok.mp opened
  obtain ⟨attribution, -, opened⟩ := bind_eq_ok.mp opened
  obtain ⟨notice, -, opened⟩ := bind_eq_ok.mp opened
  obtain rfl := Except.ok.inj opened
  rw [ensure_eq_ok, decide_eq_true_iff] at long
  rw [ensure_eq_ok, Bool.and_eq_true, decide_eq_true_iff, decide_eq_true_iff] at index
  have before : dataEnd ≤ header.index := by
    unfold blobsEnd at blobs
    split at blobs
    next => exact Nat.le_of_eq (Except.ok.inj blobs).symm
    next l own =>
      obtain ⟨_, labels, blobs⟩ := bind_eq_ok.mp blobs
      obtain ⟨_, strings, blobs⟩ := bind_eq_ok.mp blobs
      obtain ⟨last, -, blobs⟩ := bind_eq_ok.mp blobs
      obtain ⟨_, -, blobs⟩ := bind_eq_ok.mp blobs
      obtain rfl := Except.ok.inj blobs
      simp only [ensure_eq_ok, Bool.and_eq_true, decide_eq_true_iff] at labels strings
      omega
  exact ⟨rfl, long, by dsimp only; omega⟩

theorem entryIn_inside {index count n : Nat} {e : Entry} (ok : r.entryIn index count n = .ok e) :
    e.id.isValid = true ∧ 0 < e.len ∧ e.offset + e.len ≤ r.dataEnd := by
  unfold entryIn at ok
  obtain ⟨_, -, ok⟩ := bind_eq_ok.mp ok
  obtain ⟨b, -, ok⟩ := bind_eq_ok.mp ok
  obtain ⟨e', -, ok⟩ := bind_eq_ok.mp ok
  obtain ⟨_, fine, ok⟩ := bind_eq_ok.mp ok
  obtain rfl := Except.ok.inj ok
  unfold entryOk at fine
  simp only [ensure_eq_ok, Bool.and_eq_true, decide_eq_true_iff] at fine
  exact ⟨fine.1.1, fine.2.1.2, fine.2.2⟩

/-- Every byte string that is opened and verified as a region answers every question about itself, and every tile that
is found lies inside it. -/
theorem verified_region_answers (storage : Bytes) (r : Region) (opened : openRegion storage = .ok r)
    (verified : r.verify = .ok ()) :
    r.Answers ∧ ∀ id e, r.find id = .ok (some e) →
      e.id = id ∧ id.isValid = true ∧ 0 < e.len ∧ e.offset + e.len ≤ storage.length := by
  have answers := answers_of_verify verified
  refine ⟨answers, ?_⟩
  intro id e found
  obtain ⟨answer, ok, exactly⟩ := answers.tiles.search id
  rw [found] at ok
  obtain ⟨n, -, entry, same⟩ := (exactly e).mp (Except.ok.inj ok).symm
  obtain ⟨valid, filled, inside⟩ := entryIn_inside entry
  obtain ⟨-, -, within⟩ := dataEnd_le opened
  exact ⟨same, same ▸ valid, filled, Nat.le_trans inside within⟩

/-- A region of one tile with one line, whose label has an alternate name. -/
def sampleRegion : Bytes :=
  Header.encode ⟨⟨0, 0, 1, 1⟩, 0, 0, 0, (96, 1), (97, 1), 1, 208, 228, some ⟨188, 1, 2, 174, 14⟩⟩ ++ [65, 78] ++
    Fixture.write 256 256 0 [(0, 0)] [⟨.line, .path, 0, 0, [[(1, 2), (3, 4)]]⟩] ++
    encodeSection [⟨.city, 0, 0, 0, 0, 5, 6⟩] [⟨0, .minorRoad, 15, 0⟩] [(1, 1)] ++ (encodeStrings [[65], [66]]).2 ++
    Entry.encode ⟨⟨0, 0, 0⟩, 138, 36⟩ ++ Entry.encode ⟨⟨0, 0, 0⟩, 98, 40⟩

theorem sampleRegion_accepted : ((openRegion sampleRegion >>= verify).toBool) = true := by
  decide +kernel

theorem sampleRegion_answers :
    ∃ r, openRegion sampleRegion = .ok r ∧ r.verify = .ok () ∧ r.Answers := by
  have accepted := sampleRegion_accepted
  cases opened : openRegion sampleRegion with
  | error e => rw [opened] at accepted; cases accepted
  | ok r =>
    rw [opened, ok_bind] at accepted
    cases verified : r.verify with
    | error e => rw [verified] at accepted; cases accepted
    | ok u => exact ⟨r, rfl, verified, (verified_region_answers sampleRegion r opened verified).1⟩

end Region

end Leviculum.Map
