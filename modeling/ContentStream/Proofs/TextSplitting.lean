import ContentStream.Proofs.Activation
import ContentStream.Proofs.AffineMaps

/-!
# Splitting text

An array of text to show holds strings and numbers. What counts is which codes the strings spell one
after the other, and by how much the text position is shifted in between.

* `TextAction`: a glyph to show, or a shift.
* `TextItem.actions`: what an item of an array comes to. A string comes to its codes, and a shift by
  zero to nothing.

**Theorem (`showItems_eq_showActions`).** To show items is to carry out their actions.

**Theorem (`operate_showAdjusted_split`).** A string in the array may be divided in two, and a zero may
stand in between. The outcome is the same in every respect, also if something fails on the way.

A shift by zero is computed like any other, by two products, a quotient and a translation. All of them
are exact with zero, and adding a zero gives the other summand as it stands. So the text matrix is not
only equal but the same.
-/

namespace ContentStream

/-! ## Zero -/

namespace Decimal

variable {a : Decimal}

theorem isZero_neg (ha : a.isZero = true) : (-a).isZero = true := by
  show (-a.coeff == 0) = true
  simp [coeff_of_isZero ha]

end Decimal

theorem Matrix.translate?_of_isZero (m : Matrix) {v : Point} (hx : v.x.isZero = true)
    (hy : v.y.isZero = true) : m.translate? v = some m := by
  simp [Matrix.translate?, Matrix.dot?_of_isZero hx hy]

namespace GraphicsState

theorem advanceText_of_isZero (g : GraphicsState) {distance : Decimal}
    (h : distance.isZero = true) : g.advanceText distance = .ok g := by
  have hsame : g.text.matrix.translate? ⟨distance, 0⟩ = some g.text.matrix :=
    g.text.matrix.translate?_of_isZero h rfl
  unfold advanceText
  rw [hsame]
  rfl

/-- A shift by zero leaves the state as it is. -/
theorem shiftText_of_isZero (g : GraphicsState) {amount : Decimal} (h : amount.isZero = true) :
    g.shiftText amount = .ok g := by
  have hzero : (0 : Decimal).isZero = true := rfl
  have hquotient : (0 : Decimal).div? 1000 = some 0 := rfl
  unfold shiftText
  rw [Decimal.mul?_of_isZero h]
  show (orOverflow ((0 : Decimal).mul? g.text.horizontalScale) >>= fun scaled =>
    orOverflow (scaled.div? 1000) >>= fun back => g.advanceText (-back)) = .ok g
  rw [Decimal.mul?_of_isZero hzero]
  show (orOverflow ((0 : Decimal).div? 1000) >>= fun back => g.advanceText (-back)) = .ok g
  rw [hquotient]
  exact g.advanceText_of_isZero (Decimal.isZero_neg hzero)

end GraphicsState

/-! ## Codes -/

namespace Font

/-- Pairs of bytes can be read apart at every even place, and at the end. -/
theorem decodePairs_append_iff (u v : List UInt8) :
    decodePairs (u ++ v) = decodePairs u ++ decodePairs v ↔ u.length % 2 = 0 ∨ v = [] := by
  induction u using decodePairs.induct with
  | case1 hi lo rest ih =>
    have hlength : (hi :: lo :: rest).length % 2 = rest.length % 2 := Nat.add_mod_right _ 2
    rw [hlength, ← ih]
    simp [decodePairs]
  | case2 b =>
    cases v with
    | nil => simp [decodePairs]
    | cons x xs => simp [decodePairs]
  | case3 => simp [decodePairs]

/-- Where a string can be read apart. -/
theorem decode_append_iff (font : Font) (u v : List UInt8) :
    font.decode (u ++ v) = font.decode u ++ font.decode v ↔
      (font.isMultibyte = true → u.length % 2 = 0 ∨ v = []) := by
  unfold decode
  by_cases hpairs : font.isMultibyte = true
  · simp only [hpairs, if_true, decodePairs_append_iff, true_implies]
  · simp [hpairs]

end Font

/-! ## Actions -/

/-- What an array of text comes to, bit by bit. -/
inductive TextAction where
  | glyph (c : CharCode)
  | shift (amount : Decimal)

/-- What an item of an array comes to. -/
def TextItem.actions (font : Font) : TextItem → List TextAction
  | .string bytes => (font.decode bytes).map .glyph
  | .shift amount => if amount.isZero then [] else [.shift amount]

namespace Processor

variable {s : Setting} {nested : NestedRunner} {p : Processor}

def act (s : Setting) (nested : NestedRunner) (operator : String) (font : SelectedFont) :
    TextAction → Processor → Reply
  | .glyph c, p => p.showGlyph s nested operator font c
  | .shift amount, p => p.adjust fun g => g.shiftText amount

/-- Carries out one action after the other, up to the first that fails. -/
def showActions (s : Setting) (nested : NestedRunner) (operator : String) (font : SelectedFont) :
    List TextAction → Processor → Reply
  | [], p => .done p
  | action :: rest, p =>
    (act s nested operator font action p).andThen (showActions s nested operator font rest)

theorem showActions_append (operator : String) (font : SelectedFont) (xs ys : List TextAction)
    (p : Processor) :
    showActions s nested operator font (xs ++ ys) p =
      (showActions s nested operator font xs p).andThen (showActions s nested operator font ys) := by
  induction xs generalizing p with
  | nil => rfl
  | cons x xs ih =>
    simp only [List.cons_append, showActions, Reply.andThen_assoc]
    rw [funext ih]

theorem showCodes_eq_showActions (operator : String) (font : SelectedFont) (codes : List CharCode)
    (p : Processor) :
    showCodes s nested operator font codes p =
      showActions s nested operator font (codes.map .glyph) p := by
  induction codes generalizing p with
  | nil => rfl
  | cons c codes ih =>
    simp only [showCodes, List.map_cons, showActions, act]
    rw [funext ih]

/-- A shift by zero is no action at all. -/
theorem adjust_shiftText_eq_showActions (operator : String) (font : SelectedFont) (amount : Decimal)
    (p : Processor) :
    (p.adjust fun g => g.shiftText amount) =
      showActions s nested operator font ((TextItem.shift amount).actions font.font) p := by
  rw [TextItem.actions]
  by_cases hzero : amount.isZero = true
  · rw [if_pos hzero]
    simp only [adjust, GraphicsState.shiftText_of_isZero _ hzero]
    rfl
  · rw [if_neg hzero]
    simp only [showActions, act]
    cases p.adjust fun g => g.shiftText amount with
    | done q => rfl
    | failed q e => rfl

/-- **To show items is to carry out their actions.** -/
theorem showItems_eq_showActions (operator : String) (font : SelectedFont) (items : List TextItem)
    (p : Processor) :
    showItems s nested operator font items p =
      showActions s nested operator font (items.flatMap (TextItem.actions font.font)) p := by
  induction items generalizing p with
  | nil => rfl
  | cons item items ih =>
    rw [List.flatMap_cons, showActions_append, ← funext ih]
    cases item with
    | string bytes => rw [showItems, showCodes_eq_showActions, TextItem.actions]
    | shift amount => rw [showItems, adjust_shiftText_eq_showActions]

/-- Two texts that come to the same actions are shown alike. -/
theorem showText_congr {operator : String} {xs ys : List TextItem}
    (h : ∀ font, p.gstate.text.font = some font →
      xs.flatMap (TextItem.actions font.font) = ys.flatMap (TextItem.actions font.font)) :
    p.showText s nested { operator := operator, items := xs } =
      p.showText s nested { operator := operator, items := ys } := by
  unfold showText
  cases hfont : p.gstate.text.font with
  | none => rfl
  | some font =>
    show showItems s nested operator font xs p = showItems s nested operator font ys p
    rw [showItems_eq_showActions, showItems_eq_showActions, h font hfont]

/-- In an array, items may be replaced by others that come to the same actions, whatever stands in front
and behind. -/
theorem operate_showAdjusted_congr {before after items items' : List Object} {xs ys : List TextItem}
    (hxs : items.mapM (TextItem.ofObject "TJ") = .ok xs)
    (hys : items'.mapM (TextItem.ofObject "TJ") = .ok ys)
    (h : ∀ font, p.gstate.text.font = some font →
      xs.flatMap (TextItem.actions font.font) = ys.flatMap (TextItem.actions font.font)) :
    p.operate s nested .showAdjusted ⟨"TJ", [.array (before ++ items ++ after)]⟩ =
      p.operate s nested .showAdjusted ⟨"TJ", [.array (before ++ items' ++ after)]⟩ := by
  have hread : ∀ objects : List Object,
      p.operate s nested .showAdjusted ⟨"TJ", [.array objects]⟩ =
        .attempt p (objects.mapM (TextItem.ofObject "TJ")) fun items =>
          p.showText s nested { operator := "TJ", items := items } := by
    intro objects
    show Reply.attempt p (objects.mapM (TextItem.ofObject "TJ") >>= fun items =>
      pure (.show { operator := "TJ", items := items })) (p.perform s nested) = _
    cases objects.mapM (TextItem.ofObject "TJ") with
    | ok items => rfl
    | error e => rfl
  rw [hread, hread]
  simp only [List.mapM_append, hxs, hys]
  cases before.mapM (TextItem.ofObject "TJ") with
  | error e => rfl
  | ok front =>
    cases after.mapM (TextItem.ofObject "TJ") with
    | error e => rfl
    | ok back =>
      refine showText_congr fun font hfont => ?_
      simp only [List.flatMap_append, h font hfont]

/-- **Splitting text.** In an array of text let `u ++ v` be a string that the selected font, if there is
one, reads as `u` and then `v`. It may be replaced by the two strings `u` and `v`, and a zero of any
kind may stand between them. The reply is the same: the same error or none, and the same processor
with all that it has told. Fonts with codes of one byte read every string apart like this, and fonts
with codes of two bytes at even places, and at the end. -/
theorem operate_showAdjusted_split (s : Setting) (nested : NestedRunner) (p : Processor)
    (before after : List Object) (u v : List UInt8) (form form₁ form₂ : StringForm) (zero : Decimal)
    (hzero : zero.isZero = true)
    (hdecode : ∀ font, p.gstate.text.font = some font →
      font.font.decode (u ++ v) = font.font.decode u ++ font.font.decode v) :
    let reply := fun items : List Object =>
      p.operate s nested .showAdjusted ⟨"TJ", [.array (before ++ items ++ after)]⟩
    reply [.string ⟨u, form₁⟩, .string ⟨v, form₂⟩] = reply [.string ⟨u ++ v, form⟩] ∧
      reply [.string ⟨u, form₁⟩, .number zero, .string ⟨v, form₂⟩] =
        reply [.string ⟨u ++ v, form⟩] ∧
      ∀ font : Font, font.decode (u ++ v) = font.decode u ++ font.decode v ↔
        (font.isMultibyte = true → u.length % 2 = 0 ∨ v = []) := by
  intro reply
  refine ⟨?_, ?_, fun font => font.decode_append_iff u v⟩
  · refine operate_showAdjusted_congr rfl rfl fun font hfont => ?_
    simp [TextItem.actions, hdecode font hfont]
  · refine operate_showAdjusted_congr rfl rfl fun font hfont => ?_
    simp [TextItem.actions, hdecode font hfont, hzero]

/-- A font with codes of two bytes. -/
def pairFont : SelectedFont where
  name := "F"
  load := 0
  font := { program := .composite ⟨none, ∅, 1000⟩, toUnicode := ∅ }

/-- Four bytes in a font with codes of two bytes are shown in one string, in two strings, and with
`-0` in between, behind another string and in front of a shift. -/
theorem operate_showAdjusted_split_pairs :
    let s : Setting := {}
    let p : Processor := { gstate.text.font := some pairFont, gstate.text.fontSize := 10 }
    let reply := fun items : List Object =>
      p.operate s (runner s 3) .showAdjusted ⟨"TJ", [.array ([.string ⟨[0, 64], .hex⟩] ++ items ++
        [.number 100])]⟩
    (-0 : Decimal).isZero = true ∧
      pairFont.font.decode [0, 65, 1, 66] = [⟨65, 2⟩, ⟨322, 2⟩] ∧
      reply [.string ⟨[0, 65], .hex⟩, .number (-0), .string ⟨[1, 66], .literal⟩] =
        reply [.string ⟨[0, 65, 1, 66], .hex⟩] := by
  intro s p reply
  have hdecode : ∀ font, p.gstate.text.font = some font →
      font.font.decode ([0, 65] ++ [1, 66]) = font.font.decode [0, 65] ++ font.font.decode [1, 66] := by
    rintro font ⟨⟩
    rfl
  obtain ⟨-, hreply, -⟩ := operate_showAdjusted_split s (runner s 3) p [.string ⟨[0, 64], .hex⟩]
    [.number 100] [0, 65] [1, 66] .hex .hex .literal (-0) rfl hdecode
  exact ⟨rfl, rfl, hreply⟩

end Processor

end ContentStream
