import ContentStream.Proofs.Locality

/-!
# Where the data of inline images end

The data of an inline image may hold any bytes, and their end is found in one of three ways.

**Theorems.** In front of ` EI` that ends the content or has a blank behind it, the data found are

* `inlineData_counted`: all bytes, if their number is known,
* `inlineData_marked`: all bytes up to the marker of their filter, if they hold none before it,
* `inlineData_bare`: all bytes that hold no `EI` with a blank or an end on both sides.

Which way is taken depends on the dictionary. The value of a key in it comes from the entries whose
written-out key it is (`find?_expand`), so a length is known if there is one entry for it, and not
known if there is none (`dataLength?_of_singleton`, `dataLength?_of_nil`).
-/

namespace ContentStream

/-! ## Where data end -/

namespace Cursor

/-- There is nothing in front, or a blank. -/
def BlankAhead (bytes : List UInt8) : Prop := ∀ b ∈ bytes.head?, Byte.isBlank b = true

instance (bytes : List UInt8) : Decidable (BlankAhead bytes) :=
  Option.decidableForallMem bytes.head?

theorem isRegular_of_isBlank {b : UInt8} (h : Byte.isBlank b = true) :
    Byte.isRegular b = false := by
  simp [Byte.isRegular, h]

theorem skipEnd_ahead {r : List UInt8} (hr : BlankAhead r) (o : Nat) :
    (ahead o (32 :: 69 :: 73 :: r)).skipEnd = ahead (o + 3) r := by
  have hstart : (ahead o (32 :: 69 :: 73 :: r)).skipBlanks = ahead (o + 1) (69 :: 73 :: r) := rfl
  have hbehind :
      ((ahead (o + 1) (69 :: 73 :: r)).peek? 2).all (fun b => !Byte.isRegular b) = true := by
    cases r with
    | nil => rfl
    | cons b r => simp [ahead, peek?, isRegular_of_isBlank (hr b rfl)]
  have hmark : (ahead (o + 1) (69 :: 73 :: r)).startsWith endMark = true := rfl
  unfold skipEnd
  simp only [hstart, hbehind, hmark]
  rfl

section Data

variable {rest p r : List UInt8} {n : Nat}

theorem blank_ahead (o : Nat) : ((ahead o (32 :: rest)).peek? 0).any Byte.isBlank = true := rfl

theorem ahead_next (o : Nat) (b : UInt8) : (ahead o (b :: rest)).next = ahead (o + 1) rest := rfl

theorem ahead_rest (o : Nat) : (ahead o rest).rest = rest := rfl

theorem take_of_lt {c : Cursor} (h : n < c.rest.length) : c.take n = .ok (c.rest.take n) := by
  have hend : c.atEnd = false := by
    cases hrest : c.rest with
    | nil => simp [hrest] at h
    | cons b rest => simp [atEnd, hrest]
  rw [take, if_neg (by omega), hend]
  rfl

theorem inlineData_of_length (o : Nat) (marker : Option (List UInt8)) (h : n < rest.length) :
    (ahead o (32 :: rest)).inlineData (some n) marker =
      (.ok (rest.take n), (ahead (o + 1 + n) (rest.drop n)).skipEnd) := by
  have htake : (ahead (o + 1) rest).take n = .ok (rest.take n) := take_of_lt h
  simp only [inlineData, blank_ahead, if_true, ahead_next, htake, ahead_advance _ (Nat.le_of_lt h)]

theorem inlineData_of_marker (o : Nat) {marker : List UInt8}
    (h : beforeMarker? marker rest = some n) (hn : n + marker.length ≤ rest.length) :
    (ahead o (32 :: rest)).inlineData none (some marker) =
      (.ok (rest.take (n + marker.length)),
        (ahead (o + 1 + (n + marker.length)) (rest.drop (n + marker.length))).skipEnd) := by
  simp only [inlineData, blank_ahead, if_true, ahead_next, ahead_rest, h, ahead_advance _ hn]

theorem inlineData_of_end (o : Nat) (h : beforeEnd? true rest = some n)
    (hn : n + 2 ≤ rest.length) :
    (ahead o (32 :: rest)).inlineData none none =
      (.ok (rest.take n).dropLast, ahead (o + 1 + (n + 2)) (rest.drop (n + 2))) := by
  simp only [inlineData, blank_ahead, if_true, ahead_next, ahead_rest, h, ahead_advance _ hn]

/-- The first marker is the one behind bytes that hold none. -/
theorem beforeMarker?_append {marker : List UInt8} (hmarker : marker = [62] ∨ marker = [126, 62])
    (hp : ¬ marker <:+: p) (r : List UInt8) :
    beforeMarker? marker (p ++ (marker ++ r)) = some p.length := by
  induction p with
  | nil => rcases hmarker with rfl | rfl <;> simp [beforeMarker?]
  | cons b p ih =>
    have hhere : marker.isPrefixOf (b :: (p ++ (marker ++ r))) = false := by
      by_contra hpre
      rw [Bool.not_eq_false, List.isPrefixOf_iff_prefix] at hpre
      refine hp (List.IsPrefix.isInfix ?_)
      rcases hmarker with rfl | rfl
      · obtain ⟨rfl, -⟩ := List.cons_prefix_cons.1 hpre
        exact ⟨p, rfl⟩
      · -- A marker that began at `b` and ended in the one behind would have to end with its `~`.
        obtain ⟨rfl, hnext⟩ := List.cons_prefix_cons.1 hpre
        cases p with
        | nil => simp at hnext
        | cons c p =>
          obtain ⟨rfl, -⟩ := List.cons_prefix_cons.1 hnext
          exact ⟨p, rfl⟩
    have hrest : ¬ marker <:+: p := fun h => hp (List.infix_cons h)
    rw [List.cons_append, beforeMarker?, hhere, ih hrest]
    rfl

/-- The letters `EI` stand at this place, with a blank or an end of the bytes on both sides. -/
def EndAt (p : List UInt8) (i : Nat) : Prop :=
  (p.drop i).take 2 = endMark ∧ (i = 0 ∨ (p[i - 1]?).any Byte.isBlank = true) ∧
    (i + 2 = p.length ∨ (p[i + 2]?).any Byte.isBlank = true)

instance (p : List UInt8) (i : Nat) : Decidable (EndAt p i) := inferInstanceAs (Decidable (_ ∧ _))

/-- The end found is the one behind bytes that hold none. In front of the bytes stands a blank or
something else, as `afterBlank` says. -/
theorem beforeEnd?_append {blank : UInt8} (hblank : Byte.isBlank blank = true) (hr : BlankAhead r)
    {afterBlank : Bool}
    (hp : ∀ i, (p.drop i).take 2 = endMark →
      (if i = 0 then afterBlank else (p[i - 1]?).any Byte.isBlank) = true →
      ¬ (i + 2 = p.length ∨ (p[i + 2]?).any Byte.isBlank = true)) :
    beforeEnd? afterBlank (p ++ blank :: 69 :: 73 :: r) = some (p.length + 1) := by
  have hletter : blank ≠ 69 ∧ blank ≠ 73 := by
    constructor <;> rintro rfl <;> cases hblank
  induction p generalizing afterBlank with
  | nil =>
    have hbehind : (r[0]?).all Byte.isBlank = true := by
      cases r with
      | nil => rfl
      | cons b r => exact hr b rfl
    rw [List.nil_append, beforeEnd?, beforeEnd?]
    simp [endMark, hletter.1.symm, hblank, hbehind]
  | cons b p ih =>
    have hhere : (afterBlank && endMark.isPrefixOf (b :: (p ++ blank :: 69 :: 73 :: r)) &&
        ((b :: (p ++ blank :: 69 :: 73 :: r))[2]?).all Byte.isBlank) = false := by
      by_contra h
      simp only [Bool.not_eq_false, Bool.and_eq_true, List.isPrefixOf_iff_prefix] at h
      obtain ⟨⟨hbefore, hmark⟩, hbehind⟩ := h
      obtain ⟨rfl, hnext⟩ := List.cons_prefix_cons.1 hmark
      cases p with
      | nil => exact hletter.2 (List.cons_prefix_cons.1 hnext).1.symm
      | cons c p =>
        obtain ⟨rfl, -⟩ := List.cons_prefix_cons.1 hnext
        refine hp 0 rfl hbefore ?_
        cases p with
        | nil => exact .inl rfl
        | cons d p => exact .inr hbehind
    have hrest :
        beforeEnd? (Byte.isBlank b) (p ++ blank :: 69 :: 73 :: r) = some (p.length + 1) := by
      refine ih fun i hmark hbefore hbehind => hp (i + 1) hmark ?_ ?_
      · cases i with
        | zero => exact hbefore
        | succ i => exact hbefore
      · exact hbehind.imp (congrArg (· + 1)) id
    rw [List.cons_append, beforeEnd?, hhere, hrest]
    rfl

/-! ### Data in front of `EI` -/

theorem inlineData_counted (hr : BlankAhead r) (o : Nat) (marker : Option (List UInt8)) :
    (ahead o (32 :: (p ++ 32 :: 69 :: 73 :: r))).inlineData (some p.length) marker =
      (.ok p, ahead (o + (p.length + 4)) r) := by
  rw [inlineData_of_length o marker (by simp), List.take_left, List.drop_left, skipEnd_ahead hr]
  congr 2
  omega

theorem inlineData_marked {marker : List UInt8} (hmarker : marker = [62] ∨ marker = [126, 62])
    (hp : ¬ marker <:+: p) (hr : BlankAhead r) (o : Nat) :
    (ahead o (32 :: (p ++ marker ++ 32 :: 69 :: 73 :: r))).inlineData none (some marker) =
      (.ok (p ++ marker), ahead (o + ((p ++ marker).length + 4)) r) := by
  have hfound := beforeMarker?_append hmarker hp (32 :: 69 :: 73 :: r)
  rw [← List.append_assoc] at hfound
  rw [inlineData_of_marker o hfound (by simp), ← List.length_append, List.take_left,
    List.drop_left, skipEnd_ahead hr]
  congr 2
  omega

theorem inlineData_bare {blank : UInt8} (hblank : Byte.isBlank blank = true)
    (hp : ∀ i < p.length, ¬ EndAt p i) (hr : BlankAhead r) (o : Nat) :
    (ahead o (32 :: (p ++ blank :: 69 :: 73 :: r))).inlineData none none =
      (.ok p, ahead (o + (p.length + 4)) r) := by
  have hfound : beforeEnd? true (p ++ blank :: 69 :: 73 :: r) = some (p.length + 1) := by
    refine beforeEnd?_append hblank hr fun i hmark hbefore hbehind => ?_
    have hi : i < p.length := by
      by_contra hi
      rw [List.drop_eq_nil_of_le (Nat.le_of_not_lt hi)] at hmark
      cases hmark
    refine hp i hi ⟨hmark, ?_, hbehind⟩
    split at hbefore
    · exact .inl ‹_›
    · exact .inr hbefore
  have hsplit : p ++ blank :: 69 :: 73 :: r = p ++ [blank] ++ 69 :: 73 :: r := by simp
  have htake : (p ++ blank :: 69 :: 73 :: r).take (p.length + 1) = p ++ [blank] := by
    rw [hsplit]
    exact List.take_left' (by simp)
  have hdrop : (p ++ blank :: 69 :: 73 :: r).drop (p.length + 1 + 2) = r := by
    rw [← List.drop_drop, hsplit, List.drop_left' (by simp)]
    rfl
  have hlength : p.length + 1 + 2 ≤ (p ++ blank :: 69 :: 73 :: r).length := by
    simp only [List.length_append, List.length_cons]
    omega
  rw [inlineData_of_end o hfound hlength, htake, hdrop, List.dropLast_concat]
  congr 2
  omega

end Data

end Cursor

/-! ## The dictionary -/

namespace Dict

theorem filter_insert (P : String → Bool) (d : Dict) (key : String) (value : Object) :
    (insert d key value).filter (fun e => P e.1) =
      if P key then insert (d.filter fun e => P e.1) key value else d.filter fun e => P e.1 := by
  induction d with
  | nil => cases hkey : P key <;> simp [insert, hkey]
  | cons e d ih =>
    obtain ⟨k, v⟩ := e
    by_cases hk : k = key
    · subst hk
      cases hkey : P k <;> simp [insert, hkey]
    · cases hkey : P key <;> cases hkey' : P k <;> simp_all [insert]

/-- Which entries a dictionary has is decided key by key. -/
theorem filter_ofEntries (P : String → Bool) (entries : List (String × Object)) :
    (ofEntries entries).filter (fun e => P e.1) = ofEntries (entries.filter fun e => P e.1) := by
  have hfold (d : Dict) : (entries.foldl (fun d e => insert d e.1 e.2) d).filter (fun e => P e.1) =
      (entries.filter fun e => P e.1).foldl (fun d e => insert d e.1 e.2)
        (d.filter fun e => P e.1) := by
    induction entries generalizing d with
    | nil => rfl
    | cons e entries ih =>
      obtain ⟨key, value⟩ := e
      rw [List.foldl_cons, ih, filter_insert]
      cases hkey : P key <;> simp [hkey]
  exact hfold []

theorem find?_filter (d : Dict) (key : String) :
    find? (d.filter fun e => e.1 == key) key = find? d key := by
  unfold find?
  induction d with
  | nil => rfl
  | cons e d ih =>
    obtain ⟨k, v⟩ := e
    by_cases hk : k = key
    · subst hk
      simp
    · have hk' : (key == k) = false := beq_eq_false_iff_ne.2 (Ne.symm hk)
      simp [hk, hk', ih, List.lookup_cons]

end Dict

namespace InlineDict

/-- The value of a key comes from the entries whose written-out key it is. -/
theorem find?_expand (entries : List (String × Object)) (key : String) :
    Dict.find? (expand (Dict.ofEntries entries)) key =
      Dict.find? (expand (Dict.ofEntries (entries.filter fun e => expandKey e.1 == key))) key := by
  rw [← Dict.filter_ofEntries (fun k => expandKey k == key)]
  generalize Dict.ofEntries entries = d
  rw [← Dict.find?_filter, expand, Dict.filter_ofEntries (fun k => k == key), List.filter_map]
  rfl

/-- The entries that give the length of the data. -/
def lengthEntries (entries : List (String × Object)) : List (String × Object) :=
  entries.filter fun e => e.1 == "L" || e.1 == "Length"

theorem expandKey_beq_length (key : String) :
    (expandKey key == "Length") = (key == "L" || key == "Length") := by
  have htable : ∀ e ∈ keys, (e.2 == "Length") = (e.1 == "L" || e.1 == "Length") := by decide
  unfold expandKey fullForm
  cases hfind : keys.lookup key with
  | some word =>
    obtain ⟨before, behind, hkeys, -⟩ := List.lookup_eq_some_iff.1 hfind
    have hmem : (key, word) ∈ keys := by simp [hkeys]
    exact htable _ hmem
  | none =>
    have hkey : key ≠ "L" := by
      rintro rfl
      cases hfind
    simp [hkey]

theorem find?_length (entries : List (String × Object)) :
    Dict.find? (expand (Dict.ofEntries entries)) "Length" =
      Dict.find? (expand (Dict.ofEntries (lengthEntries entries))) "Length" := by
  rw [find?_expand]
  simp only [expandKey_beq_length]
  rfl

theorem dataLength?_of_nil {entries : List (String × Object)} (h : lengthEntries entries = []) :
    dataLength? (expand (Dict.ofEntries entries)) = none := by
  rw [dataLength?, find?_length, h]
  rfl

theorem dataLength?_of_singleton {entries : List (String × Object)} {key : String} {n : Decimal}
    (h : lengthEntries entries = [(key, .number n)]) :
    dataLength? (expand (Dict.ofEntries entries)) = n.toNatBelow? wordBound := by
  have hkey : expandKey key = "Length" := by
    have hmem : (key, .number n) ∈ lengthEntries entries := h ▸ List.mem_singleton_self _
    rw [← beq_iff_eq, expandKey_beq_length]
    exact (List.mem_filter.1 hmem).2
  have hexpand : expand (Dict.ofEntries [(key, .number n)]) = [("Length", .number n)] := by
    simp [expand, Dict.ofEntries, Dict.insert, hkey, expandValue]
  rw [dataLength?, find?_length, h, hexpand]
  rfl

theorem dataMarker?_of_other {d : Dict}
    (h : ∀ f ∈ firstFilter? d, f ≠ "ASCIIHexDecode" ∧ f ≠ "ASCII85Decode") :
    dataMarker? d = none := by
  unfold dataMarker?
  split
  · rename_i hf
    exact absurd rfl (h _ hf).2
  · rename_i hf
    exact absurd rfl (h _ hf).1
  · rfl

/-- The filters whose data end with a marker, and the marker. -/
def markers : List (String × List UInt8) :=
  [("ASCIIHexDecode", Utf8.encode ">"), ("ASCII85Decode", Utf8.encode "~>")]

theorem dataMarker?_of_mem {filter : String} {marker : List UInt8} {d : Dict}
    (h : (filter, marker) ∈ markers) (hfilter : firstFilter? d = some filter) :
    dataMarker? d = some marker ∧ (marker = [62] ∨ marker = [126, 62]) := by
  rw [markers, List.mem_cons, List.mem_singleton] at h
  unfold dataMarker?
  rw [hfilter]
  rcases h with h | h <;> cases h
  · exact ⟨rfl, .inl rfl⟩
  · exact ⟨rfl, .inr rfl⟩

end InlineDict

end ContentStream
