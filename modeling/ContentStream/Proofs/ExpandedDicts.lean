import ContentStream.Proofs.InlineData
import ContentStream.Proofs.Printing
import Mathlib.Data.List.Forall2
import Mathlib.Data.List.Induction

/-!
# Dictionaries of inline images, written out

A dictionary may give a key in two ways, abbreviated and in full. Writing keys out then merges
entries.

**Theorem (`expand_normalForm`).** An expanded dictionary has no abbreviated key. It has the value
of the last entry for a key, in the place of the first one, and expanding it again changes nothing.

Values and places are settled for any entries that are inserted one after the other
(`find?_ofEntries_eq_some_iff`, `pairwise_keys_ofEntries`), and the tables of abbreviations enter by
one property only (`Closed`). What is expanded is in full (`inFull_expand`), and what is in full
stays (`expand_of_inFull`).
-/

namespace ContentStream

/-! ## Entries one after the other -/

namespace Dict

theorem ofEntries_concat (entries : List (String × Object)) (e : String × Object) :
    ofEntries (entries ++ [e]) = insert (ofEntries entries) e.1 e.2 := by
  rw [ofEntries, List.foldl_concat]
  rfl

theorem find?_cons (e : String × Object) (d : Dict) (key : String) :
    find? (e :: d) key = if key = e.1 then some e.2 else find? d key := by
  obtain ⟨k, v⟩ := e
  by_cases hkey : key = k
  · simp [find?, hkey]
  · simp [find?, List.lookup_cons, beq_eq_false_iff_ne.2 hkey, hkey]

theorem find?_insert (d : Dict) (key : String) (value : Object) (k : String) :
    find? (insert d key value) k = if k = key then some value else find? d k := by
  induction d with
  | nil => exact find?_cons (key, value) [] k
  | cons e d ih =>
    obtain ⟨k', v⟩ := e
    by_cases hk' : k' = key
    · subst hk'
      simp only [insert, beq_self_eq_true, if_true, find?_cons]
      split <;> rfl
    · have hstep : insert ((k', v) :: d) key value = (k', v) :: insert d key value :=
        if_neg (by simpa using hk')
      rw [hstep, find?_cons, find?_cons, ih]
      by_cases hk : k = k'
      · subst hk
        simp [hk']
      · simp [hk]

/-- The last entry for a key is found first. -/
theorem find?_ofEntries (entries : List (String × Object)) (key : String) :
    find? (ofEntries entries) key = entries.reverse.lookup key := by
  induction entries using List.reverseRecOn with
  | nil => rfl
  | append_singleton entries e ih =>
    rw [ofEntries_concat, find?_insert, ih, List.reverse_concat]
    exact (find?_cons e entries.reverse key).symm

theorem find?_ofEntries_eq_some_iff {entries : List (String × Object)} {key : String}
    {value : Object} :
    find? (ofEntries entries) key = some value ↔
      ∃ before after, entries = before ++ (key, value) :: after ∧ ∀ e ∈ after, e.1 ≠ key := by
  rw [find?_ofEntries, List.lookup_eq_some_iff]
  constructor
  · rintro ⟨before, after, hentries, hne⟩
    refine ⟨after.reverse, before.reverse, ?_, fun e he heq => ?_⟩
    · rw [← List.reverse_reverse entries, hentries]
      simp
    · simpa [heq] using hne e (List.mem_reverse.1 he)
  · rintro ⟨before, after, rfl, hne⟩
    refine ⟨after.reverse, before.reverse, by simp, fun e he => ?_⟩
    exact bne_iff_ne.2 (hne e (List.mem_reverse.1 he)).symm

theorem keys_insert_of_mem {d : Dict} {key : String} (h : key ∈ d.map Prod.fst) (value : Object) :
    (insert d key value).map Prod.fst = d.map Prod.fst := by
  induction d with
  | nil => cases h
  | cons e d ih =>
    obtain ⟨k, v⟩ := e
    by_cases hk : k = key
    · simp [insert, hk]
    · have hmem : key ∈ d.map Prod.fst := (List.mem_cons.1 h).resolve_left (Ne.symm hk)
      simp [insert, hk, ih hmem]

theorem keys_insert_of_not_mem {d : Dict} {key : String} (h : key ∉ d.map Prod.fst)
    (value : Object) : (insert d key value).map Prod.fst = d.map Prod.fst ++ [key] := by
  rw [insert_of_not_mem h, List.map_append, List.map_singleton]

theorem mem_keys_insert {d : Dict} {key k : String} {value : Object} :
    k ∈ (insert d key value).map Prod.fst ↔ k ∈ d.map Prod.fst ∨ k = key := by
  by_cases h : key ∈ d.map Prod.fst
  · rw [keys_insert_of_mem h, iff_self_or]
    rintro rfl
    exact h
  · rw [keys_insert_of_not_mem h, List.mem_append, List.mem_singleton]

theorem mem_keys_ofEntries {entries : List (String × Object)} {key : String} :
    key ∈ (ofEntries entries).map Prod.fst ↔ key ∈ entries.map Prod.fst := by
  induction entries using List.reverseRecOn with
  | nil => rfl
  | append_singleton entries e ih =>
    rw [ofEntries_concat, mem_keys_insert, ih, List.map_append, List.mem_append, List.map_singleton,
      List.mem_singleton]

/-- The keys stand in the order in which they first came. -/
theorem pairwise_keys_ofEntries (entries : List (String × Object)) :
    ((ofEntries entries).map Prod.fst).Pairwise fun a b =>
      (entries.map Prod.fst).idxOf a < (entries.map Prod.fst).idxOf b := by
  induction entries using List.reverseRecOn with
  | nil => exact .nil
  | append_singleton entries e ih =>
    -- Keys that have come keep their places, and a new one goes behind them.
    have hplace : ∀ {a}, a ∈ (ofEntries entries).map Prod.fst →
        ((entries ++ [e]).map Prod.fst).idxOf a = (entries.map Prod.fst).idxOf a := fun ha => by
      rw [List.map_append, List.idxOf_append_of_mem (mem_keys_ofEntries.1 ha)]
    have hkept : ((ofEntries entries).map Prod.fst).Pairwise fun a b =>
        ((entries ++ [e]).map Prod.fst).idxOf a < ((entries ++ [e]).map Prod.fst).idxOf b :=
      ih.imp_of_mem fun ha hb hlt => by rwa [hplace ha, hplace hb]
    rw [ofEntries_concat]
    by_cases he : e.1 ∈ (ofEntries entries).map Prod.fst
    · rwa [keys_insert_of_mem he]
    · have hlast : ((entries ++ [e]).map Prod.fst).idxOf e.1 = (entries.map Prod.fst).length := by
        rw [List.map_append, List.idxOf_append_of_notMem (mt mem_keys_ofEntries.2 he),
          List.map_singleton, List.idxOf_cons_self, Nat.add_zero]
      rw [keys_insert_of_not_mem he]
      refine List.pairwise_append.2 ⟨hkept, List.pairwise_singleton _ _, fun a ha b hb => ?_⟩
      obtain rfl := List.mem_singleton.1 hb
      rw [hplace ha, hlast]
      exact List.idxOf_lt_length_iff.2 (mem_keys_ofEntries.1 ha)

theorem nodup_keys_ofEntries (entries : List (String × Object)) :
    ((ofEntries entries).map Prod.fst).Nodup :=
  (pairwise_keys_ofEntries entries).imp fun hlt heq => by
    subst heq
    exact Nat.lt_irrefl _ hlt

end Dict

namespace InlineDict

variable {table : List (String × String)} {word full : String}

/-! ## Words -/

/-- The word is the full one or, by the table, short for it. -/
def StandsFor (table : List (String × String)) (word full : String) : Prop :=
  (word, full) ∈ table ∨ word = full

instance (table : List (String × String)) (word full : String) :
    Decidable (StandsFor table word full) :=
  instDecidableOr

/-- An abbreviation is short for one word, which is not short for another. -/
structure Closed (table : List (String × String)) : Prop where
  unique : ∀ e ∈ table, table.lookup e.1 = some e.2
  full : ∀ e ∈ table, e.2 ∉ table.map Prod.fst

theorem closed_keys : Closed keys := ⟨by decide, by decide⟩

theorem closed_filters : Closed filters := ⟨by decide, by decide⟩

theorem closed_colorSpaces : Closed ColorSpace.abbreviations := ⟨by decide, by decide⟩

theorem fullForm_of_not_mem (h : word ∉ table.map Prod.fst) : fullForm table word = word := by
  have hnone : table.lookup word = none := List.lookup_eq_none_iff.2 fun e he =>
    bne_iff_ne.2 fun heq => h (heq ▸ List.mem_map_of_mem he)
  rw [fullForm, hnone]
  rfl

theorem Closed.fullForm_of_mem (h : Closed table) (hmem : (word, full) ∈ table) :
    fullForm table word = full := by
  rw [fullForm, h.unique _ hmem]
  rfl

/-- A word that is written out is not an abbreviation. -/
theorem Closed.fullForm_not_mem (h : Closed table) (word : String) :
    fullForm table word ∉ table.map Prod.fst := by
  by_cases hword : word ∈ table.map Prod.fst
  · obtain ⟨e, he, rfl⟩ := List.mem_map.1 hword
    rw [h.fullForm_of_mem he]
    exact h.full e he
  · rwa [fullForm_of_not_mem hword]

theorem Closed.fullForm_eq_iff (h : Closed table) (hfull : full ∉ table.map Prod.fst) :
    fullForm table word = full ↔ StandsFor table word full := by
  constructor
  · rintro rfl
    by_cases hword : word ∈ table.map Prod.fst
    · obtain ⟨e, he, rfl⟩ := List.mem_map.1 hword
      rw [h.fullForm_of_mem he]
      exact .inl he
    · exact .inr (fullForm_of_not_mem hword).symm
  · rintro (hmem | rfl)
    · exact h.fullForm_of_mem hmem
    · exact fullForm_of_not_mem hfull

/-! ## Values -/

/-- A name and what is written out for it. Other objects stay. -/
inductive NameInFull (table : List (String × String)) : Object → Object → Prop
  | name {word full : String} : StandsFor table word full → full ∉ table.map Prod.fst →
      NameInFull table (.name word) (.name full)
  | other {o : Object} : o.shape ≠ .name → NameInFull table o o

/-- The value of a key and what is written out for it: the names of colour spaces, and of filters
one by one. -/
inductive ValueInFull : String → Object → Object → Prop
  | colorSpace {value value' : Object} : NameInFull ColorSpace.abbreviations value value' →
      ValueInFull "ColorSpace" value value'
  | filter {value value' : Object} : value.shape ≠ .array → NameInFull filters value value' →
      ValueInFull "Filter" value value'
  | filters {items items' : List Object} : List.Forall₂ (NameInFull filters) items items' →
      ValueInFull "Filter" (.array items) (.array items')
  | other {key : String} {value : Object} : key ≠ "ColorSpace" → key ≠ "Filter" →
      ValueInFull key value value

theorem Closed.nameInFull_expandName (h : Closed table) (o : Object) :
    NameInFull table o (expandName table o) := by
  cases o with
  | name word =>
    have hfull := h.fullForm_not_mem word
    exact .name ((h.fullForm_eq_iff hfull).1 rfl) hfull
  | _ => exact .other (by simp [Object.shape])

theorem Closed.expandName_of_nameInFull (h : Closed table) {o o' : Object}
    (ho : NameInFull table o o') : expandName table o = o' := by
  cases ho with
  | name hstands hfull => exact congrArg Object.name ((h.fullForm_eq_iff hfull).2 hstands)
  | other hshape =>
    cases o with
    | name word => exact absurd rfl hshape
    | _ => rfl

theorem NameInFull.self {o o' : Object} (h : NameInFull table o o') : NameInFull table o' o' := by
  cases h with
  | name _ hfull => exact .name (.inr rfl) hfull
  | other hshape => exact .other hshape

theorem NameInFull.shape_eq {o o' : Object} (h : NameInFull table o o') : o'.shape = o.shape := by
  cases h <;> rfl

theorem ValueInFull.self {key : String} {value value' : Object} (h : ValueInFull key value value') :
    ValueInFull key value' value' := by
  cases h with
  | colorSpace h => exact .colorSpace h.self
  | filter hshape h => exact .filter (h.shape_eq ▸ hshape) h.self
  | filters h =>
    refine .filters ?_
    induction h with
    | nil => exact .nil
    | cons h _ ih => exact .cons h.self ih
  | other hcolor hfilter => exact .other hcolor hfilter

theorem expandValue_filter {value : Object} (h : value.shape ≠ .array) :
    expandValue "Filter" value = expandName filters value := by
  cases value with
  | array items => exact absurd rfl h
  | _ => rfl

theorem expandValue_other {key : String} (hcolor : key ≠ "ColorSpace") (hfilter : key ≠ "Filter")
    (value : Object) : expandValue key value = value := by
  unfold expandValue
  rw [if_neg (by simpa using hcolor), if_neg (by simpa using hfilter)]

theorem valueInFull_expandValue (key : String) (value : Object) :
    ValueInFull key value (expandValue key value) := by
  by_cases hcolor : key = "ColorSpace"
  · subst hcolor
    exact .colorSpace (closed_colorSpaces.nameInFull_expandName value)
  by_cases hfilter : key = "Filter"
  · subst hfilter
    by_cases hshape : value.shape = .array
    · obtain ⟨items, rfl⟩ : ∃ items, value = .array items := by
        cases value with
        | array items => exact ⟨items, rfl⟩
        | _ => cases hshape
      refine .filters (List.forall₂_map_right_iff.2 (List.forall₂_same.2 fun o _ => ?_))
      exact closed_filters.nameInFull_expandName o
    · rw [expandValue_filter hshape]
      exact .filter hshape (closed_filters.nameInFull_expandName value)
  · rw [expandValue_other hcolor hfilter]
    exact .other hcolor hfilter

theorem expandValue_eq_iff {key : String} {value value' : Object} :
    expandValue key value = value' ↔ ValueInFull key value value' := by
  constructor
  · rintro rfl
    exact valueInFull_expandValue key value
  · intro h
    cases h with
    | colorSpace h => exact closed_colorSpaces.expandName_of_nameInFull h
    | filter hshape h =>
      rw [expandValue_filter hshape]
      exact closed_filters.expandName_of_nameInFull h
    | @filters items items' h =>
      refine congrArg Object.array ?_
      induction h with
      | nil => rfl
      | cons h _ ih => rw [List.map_cons, closed_filters.expandName_of_nameInFull h, ih]
    | other hcolor hfilter => exact expandValue_other hcolor hfilter value

/-! ## Dictionaries -/

/-- `e` is the last entry for a key. -/
def LastFor (d : Dict) (full : String) (e : String × Object) : Prop :=
  ∃ before after, d = before ++ e :: after ∧ StandsFor keys e.1 full ∧
    ∀ e' ∈ after, ¬StandsFor keys e'.1 full

/-- The place of the first entry for a key. -/
def firstPlace (d : Dict) (full : String) : Nat := d.findIdx fun e => StandsFor keys e.1 full

/-- An entry, written out. -/
def expandEntry (e : String × Object) : String × Object :=
  (expandKey e.1, expandValue (expandKey e.1) e.2)

theorem expand_eq (d : Dict) : expand d = Dict.ofEntries (d.map expandEntry) := rfl

theorem expandKey_eq_iff {key : String} (hfull : full ∉ keys.map Prod.fst) :
    expandKey key = full ↔ StandsFor keys key full :=
  closed_keys.fullForm_eq_iff hfull

theorem not_mem_of_mem_expand {d : Dict} {key : String} (h : key ∈ (expand d).map Prod.fst) :
    key ∉ keys.map Prod.fst := by
  rw [expand_eq, Dict.mem_keys_ofEntries, List.map_map] at h
  obtain ⟨e, -, rfl⟩ := List.mem_map.1 h
  exact closed_keys.fullForm_not_mem e.1

theorem find?_expand_eq_some_iff {d : Dict} {value : Object} (hfull : full ∉ keys.map Prod.fst) :
    Dict.find? (expand d) full = some value ↔
      ∃ e, LastFor d full e ∧ ValueInFull full e.2 value := by
  rw [expand_eq, Dict.find?_ofEntries_eq_some_iff]
  constructor
  · rintro ⟨before, after, hd, hafter⟩
    obtain ⟨before, rest, rfl, -, hrest⟩ := List.map_eq_append_iff.1 hd
    obtain ⟨e, after, rfl, he, rfl⟩ := List.map_eq_cons_iff.1 hrest
    obtain ⟨hkey, hvalue⟩ := Prod.mk.inj he
    rw [hkey] at hvalue
    refine ⟨e, ⟨before, after, rfl, (expandKey_eq_iff hfull).1 hkey, fun e' he' hstands => ?_⟩,
      expandValue_eq_iff.1 hvalue⟩
    exact hafter _ (List.mem_map_of_mem he') ((expandKey_eq_iff hfull).2 hstands)
  · rintro ⟨e, ⟨before, after, rfl, hstands, hafter⟩, hvalue⟩
    have hkey : expandKey e.1 = full := (expandKey_eq_iff hfull).2 hstands
    have he : expandEntry e = (full, value) := by
      rw [expandEntry, hkey, expandValue_eq_iff.2 hvalue]
    refine ⟨before.map expandEntry, after.map expandEntry, ?_, fun e' he' heq => ?_⟩
    · rw [List.map_append, List.map_cons, he]
    · obtain ⟨e, hmem, rfl⟩ := List.mem_map.1 he'
      exact hafter e hmem ((expandKey_eq_iff hfull).1 heq)

theorem idxOf_expandEntry (d : Dict) (hfull : full ∉ keys.map Prod.fst) :
    ((d.map expandEntry).map Prod.fst).idxOf full = firstPlace d full := by
  rw [List.map_map, List.idxOf, List.findIdx_map, firstPlace]
  congr 1
  funext e
  rw [Bool.eq_iff_iff, decide_eq_true_iff, ← expandKey_eq_iff hfull]
  exact beq_iff_eq

theorem pairwise_keys_expand (d : Dict) :
    ((expand d).map Prod.fst).Pairwise fun a b => firstPlace d a < firstPlace d b := by
  have hkeys : ((expand d).map Prod.fst).Pairwise _ :=
    Dict.pairwise_keys_ofEntries (d.map expandEntry)
  refine hkeys.imp_of_mem fun {a b} ha hb hlt => ?_
  rwa [idxOf_expandEntry d (not_mem_of_mem_expand ha),
    idxOf_expandEntry d (not_mem_of_mem_expand hb)] at hlt

theorem find?_expand_of_other {d : Dict} {key : String} (hd : (d.map Prod.fst).Nodup)
    (hshort : key ∉ keys.map Prod.fst) (hfull : key ∉ keys.map Prod.snd) :
    Dict.find? (expand d) key = Dict.find? d key := by
  -- Nothing is short for such a key, and its value is not looked into.
  have hstands : ∀ word, StandsFor keys word key ↔ word = key := fun word =>
    or_iff_right fun hmem => hfull (List.mem_map_of_mem hmem)
  have hcolor : key ≠ "ColorSpace" := by
    rintro rfl
    exact hfull (by decide)
  have hfilter : key ≠ "Filter" := by
    rintro rfl
    exact hfull (by decide)
  have hvalue : ∀ {value value'}, ValueInFull key value value' ↔ value = value' := by
    intro value value'
    rw [← expandValue_eq_iff, expandValue_other hcolor hfilter]
  refine Option.ext fun value => ?_
  rw [find?_expand_eq_some_iff hshort]
  nth_rewrite 2 [← Dict.ofEntries_of_nodup hd]
  rw [Dict.find?_ofEntries_eq_some_iff]
  simp only [LastFor, hstands, hvalue]
  constructor
  · rintro ⟨e, ⟨before, after, hd, rfl, hafter⟩, rfl⟩
    exact ⟨before, after, hd, hafter⟩
  · rintro ⟨before, after, hd, hafter⟩
    exact ⟨(key, value), ⟨before, after, hd, rfl, hafter⟩, rfl⟩

/-- Everything in the dictionary is written out. -/
structure InFull (d : Dict) : Prop where
  nodup : (d.map Prod.fst).Nodup
  key : ∀ e ∈ d, e.1 ∉ keys.map Prod.fst
  value : ∀ e ∈ d, ValueInFull e.1 e.2 e.2

theorem expand_of_inFull {d : Dict} (h : InFull d) : expand d = d := by
  have hentry : ∀ e ∈ d, expandEntry e = e := fun e he => by
    have hkey : expandKey e.1 = e.1 := fullForm_of_not_mem (h.key e he)
    rw [expandEntry, hkey, expandValue_eq_iff.2 (h.value e he)]
  rw [expand_eq, List.map_congr_left hentry, List.map_id', Dict.ofEntries_of_nodup h.nodup]

theorem inFull_expand (d : Dict) : InFull (expand d) where
  nodup := Dict.nodup_keys_ofEntries _
  key e he := not_mem_of_mem_expand (List.mem_map_of_mem he)
  value e he := by
    have hfind : Dict.find? (expand d) e.1 = some e.2 :=
      Object.lookup_of_mem_nodup (Dict.nodup_keys_ofEntries _) he
    have hkey := not_mem_of_mem_expand (List.mem_map_of_mem he)
    obtain ⟨last, -, hvalue⟩ := (find?_expand_eq_some_iff hkey).1 hfind
    exact hvalue.self

/-- **Expansion is a normal form.** Only for the entries that are kept as they are does it matter
that the keys of `d` differ, as those of a dictionary do. -/
theorem expand_normalForm (d : Dict) :
    (∀ key ∈ (expand d).map Prod.fst, key ∉ keys.map Prod.fst) ∧
      (∀ full ∈ keys.map Prod.snd, ∀ value, Dict.find? (expand d) full = some value ↔
        ∃ e, LastFor d full e ∧ ValueInFull full e.2 value) ∧
      (((expand d).map Prod.fst).Pairwise fun a b => firstPlace d a < firstPlace d b) ∧
      ((d.map Prod.fst).Nodup → ∀ key, key ∉ keys.map Prod.fst → key ∉ keys.map Prod.snd →
        Dict.find? (expand d) key = Dict.find? d key) ∧
      expand (expand d) = expand d := by
  refine ⟨fun _ => not_mem_of_mem_expand, fun full hfull value => ?_, pairwise_keys_expand d,
    fun hd _ => find?_expand_of_other hd, expand_of_inFull (inFull_expand d)⟩
  obtain ⟨e, he, rfl⟩ := List.mem_map.1 hfull
  exact find?_expand_eq_some_iff (closed_keys.full e he)

/-- Two entries for the width, with others between them. -/
theorem expand_normalForm_two_widths :
    let d : Dict := [("W", .number 1), ("F", .array [.name "AHx", .name "Fl"]), ("Note", .name "G"),
      ("CS", .name "G"), ("Width", .number 100)]
    (d.map Prod.fst).Nodup ∧
      (expand d).map Prod.fst = ["Width", "Filter", "Note", "ColorSpace"] ∧
      "Width" ∉ keys.map Prod.fst ∧
      Dict.find? (expand d) "Width" = some (.number 100) ∧
      Dict.find? (expand d) "Filter" =
        some (.array [.name "ASCIIHexDecode", .name "FlateDecode"]) ∧
      Dict.find? (expand d) "ColorSpace" = some (.name "DeviceGray") ∧
      (["Width", "Filter", "Note", "ColorSpace"].Pairwise fun a b =>
        firstPlace d a < firstPlace d b) ∧
      Dict.find? (expand d) "Note" = Dict.find? d "Note" ∧
      expand (expand d) = expand d := by
  intro d
  obtain ⟨hkey, hlast, hplaces, hother, hagain⟩ := expand_normalForm d
  have hd : (d.map Prod.fst).Nodup := by decide
  have hkeys : (expand d).map Prod.fst = ["Width", "Filter", "Note", "ColorSpace"] := rfl
  have hwidth : Dict.find? (expand d) "Width" = some (.number 100) :=
    (hlast "Width" (by decide) _).2
      ⟨_, ⟨d.take 4, [], rfl, by decide, by decide⟩, .other (by decide) (by decide)⟩
  have hfilter : Dict.find? (expand d) "Filter" =
      some (.array [.name "ASCIIHexDecode", .name "FlateDecode"]) :=
    (hlast "Filter" (by decide) _).2 ⟨_, ⟨d.take 1, d.drop 2, rfl, by decide, by decide⟩,
      .filters (.cons (.name (by decide) (by decide)) (.cons (.name (by decide) (by decide)) .nil))⟩
  have hspace : Dict.find? (expand d) "ColorSpace" = some (.name "DeviceGray") :=
    (hlast "ColorSpace" (by decide) _).2 ⟨_, ⟨d.take 3, d.drop 4, rfl, by decide, by decide⟩,
      .colorSpace (.name (by decide) (by decide))⟩
  rw [hkeys] at hkey hplaces
  exact ⟨hd, hkeys, hkey "Width" (by decide), hwidth, hfilter, hspace, hplaces,
    hother hd "Note" (by decide) (by decide), hagain⟩

end InlineDict

end ContentStream
