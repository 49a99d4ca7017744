import ContentStream.Proofs.Steps

/-!
# Fonts that are alike

A font that was reached by a reference is remembered for the rest of the run, and found again whatever
name leads to the reference then. This module says what that may change.

* `Font.Alike`: two fonts give the same codes, widths, texts and glyphs. Only Type 3 fonts may bear
  different names.
* `Processor.FontsCoherent`: every font that is remembered for a reference is like the one that would
  now be built from its object.

**Theorem (`executeWord_alike`).** The operators that select fonts select fonts that are alike from
whatever is remembered, as long as it is coherent, and they report the same.

**Theorem (`showItems_alike`).** Texts are shown in fonts that are alike with the same effect on
everything.

Fonts are built by whatever loader a run is given, as long as it builds fonts that are alike under all
names (`FontLoader.NameBlind`). So a remembered font is like a new one, also if it was built under
another name. `Font.load` is such a loader: it takes nothing but the name of a Type 3 font from the name
that led to it (`load_renamed`).
-/

namespace ContentStream

/-! ## Fonts under other names -/

/-- What fonts are used for does not tell the two apart. -/
structure Font.Alike (f g : Font) : Prop where
  subtype : f.subtype = g.subtype
  decode : ∀ bytes, f.decode bytes = g.decode bytes
  width : ∀ code, f.width code = g.width code
  text : ∀ code, f.text? code = g.text? code
  matrix : f.matrix = g.matrix
  procedure : ∀ code, f.procedure? code = g.procedure? code
  resources : f.resources? = g.resources?
  name : f.subtype ≠ "Type3" → f.fontName? = g.fontName?

/-- The fonts that are built under different names are alike. -/
def FontLoader.NameBlind (load : FontLoader) : Prop :=
  ∀ table name name' spec f, load table name spec = .ok f →
    ∃ g, load table name' spec = .ok g ∧ f.Alike g

/-- The font that an object describes. -/
def Setting.buildFont (s : Setting) (name : String) (spec : Object) : Except Error Font := do
  s.load s.table name (← (s.table.resolve spec).asDict)

namespace Font

variable {f g h : Font}

theorem Alike.refl (f : Font) : f.Alike f :=
  ⟨rfl, fun _ => rfl, fun _ => rfl, fun _ => rfl, rfl, fun _ => rfl, rfl, fun _ => rfl⟩

theorem Alike.symm (h : f.Alike g) : g.Alike f where
  subtype := h.subtype.symm
  decode bytes := (h.decode bytes).symm
  width code := (h.width code).symm
  text code := (h.text code).symm
  matrix := h.matrix.symm
  procedure code := (h.procedure code).symm
  resources := h.resources.symm
  name hother := (h.name (h.subtype ▸ hother)).symm

theorem Alike.trans (h₁ : f.Alike g) (h₂ : g.Alike h) : f.Alike h where
  subtype := h₁.subtype.trans h₂.subtype
  decode bytes := (h₁.decode bytes).trans (h₂.decode bytes)
  width code := (h₁.width code).trans (h₂.width code)
  text code := (h₁.text code).trans (h₂.text code)
  matrix := h₁.matrix.trans h₂.matrix
  procedure code := (h₁.procedure code).trans (h₂.procedure code)
  resources := h₁.resources.trans h₂.resources
  name hother := (h₁.name hother).trans (h₂.name (h₁.subtype ▸ hother))

/-- The font with another name, if it is a Type 3 font. -/
def renamed (name : String) (f : Font) : Font :=
  match f.program with
  | .type3 program => { f with program := .type3 { program with name } }
  | _ => f

theorem alike_renamed (f : Font) (name : String) : f.Alike (f.renamed name) := by
  obtain ⟨program, toUnicode⟩ := f
  cases program with
  | simple font => exact .refl _
  | composite font => exact .refl _
  | type3 font =>
    exact ⟨rfl, fun _ => rfl, fun _ => rfl, fun _ => rfl, rfl, fun _ => rfl, rfl,
      fun hother => absurd rfl hother⟩

variable (table : ObjectTable) (name name' : String)

theorem loadType3_renamed (spec : Dict) :
    loadType3 table name' spec = ({ · with name := name' }) <$> loadType3 table name spec := by
  unfold loadType3
  cases Dict.find? spec "FontMatrix" with
  | none => simp only [map_bind, map_pure]
  | some o =>
    simp only [map_bind]
    refine bind_congr fun entries => ?_
    split <;> simp only [map_bind, map_pure]

/-- **The name of a font** has no part in what it is loaded to, other than as its name. -/
theorem load_renamed (spec : Dict) :
    load table name' spec = renamed name' <$> load table name spec := by
  unfold load
  dsimp only
  split
  · cases loadComposite table spec <;> rfl
  · rw [loadType3_renamed table name name' spec]
    cases loadType3 table name spec <;> rfl
  · cases loadSimple table ((name? table spec "Subtype").getD "Type1") spec <;> rfl

theorem load_nameBlind : FontLoader.NameBlind load := by
  intro table name name' spec f hf
  refine ⟨f.renamed name', ?_, f.alike_renamed name'⟩
  rw [load_renamed table name, hf]
  rfl

end Font

theorem Setting.buildFont_alike {s : Setting} {name : String} {spec : Object} {f : Font}
    (hblind : s.load.NameBlind) (h : s.buildFont name spec = .ok f) (name' : String) :
    ∃ g, s.buildFont name' spec = .ok g ∧ f.Alike g := by
  obtain ⟨dict, hdict, hload⟩ := exists_of_bind_ok h
  simp only [buildFont, hdict]
  exact hblind _ name name' dict f hload

/-! ## References -/

namespace ObjectTable

theorem follow_follow (table : ObjectTable) (limit n : Nat) (o : Object) :
    table.follow (n + 1) (table.follow limit o) = table.follow limit o := by
  induction limit generalizing o with
  | zero => rfl
  | succ limit ih =>
    cases o with
    | ref r => exact ih _
    | _ => rfl

theorem resolve_resolve (table : ObjectTable) (o : Object) :
    table.resolve (table.resolve o) = table.resolve o := follow_follow table _ _ o

/-- An object was found by a reference, if there is one. -/
def FoundBy (table : ObjectTable) (spec : Object) (ref : Option ObjectRef) : Prop :=
  ∀ r, ref = some r → table.resolve spec = table.resolve (.ref r)

theorem foundBy_asRef (table : ObjectTable) (o : Object) : table.FoundBy o o.asRef.toOption := by
  intro r hr
  cases o with
  | ref r' =>
    obtain rfl : r' = r := Option.some.inj hr
    rfl
  | _ => cases hr

theorem foundBy_lookup {table : ObjectTable} {chain : ResourceChain} {category name : String}
    {found : Resource} (h : chain.lookup table category name = .ok found) :
    table.FoundBy found.object found.ref := by
  unfold ResourceChain.lookup at h
  split at h
  · rename_i r hr
    cases h
    obtain ⟨scope, -, hscope⟩ := List.exists_of_findSome?_eq_some hr
    unfold ResourceChain.lookupIn? at hscope
    split at hscope
    · split at hscope
      · rename_i entry _
        dsimp only at hscope
        split at hscope
        · cases hscope
        · cases hscope
          intro r hr
          rw [resolve_resolve]
          exact foundBy_asRef table entry r hr
      · cases hscope
    · cases hscope
  · cases h

end ObjectTable

/-! ## What is remembered -/

/-- The same name, and fonts that are alike. -/
structure SelectedFont.Alike (f g : SelectedFont) : Prop where
  name : f.name = g.name
  font : f.font.Alike g.font

/-- Both fail in the same way, or they give results that are related. -/
inductive Agree {α : Type} (related : α → α → Prop) : Except Error α → Except Error α → Prop
  | ok {a b : α} : related a b → Agree related (.ok a) (.ok b)
  | error (e : Error) : Agree related (.error e) (.error e)

namespace Processor

/-- Every font that is remembered for a reference is like the one that would now be built from its
object, under whatever name. -/
def FontsCoherent (s : Setting) (p : Processor) : Prop :=
  ∀ r load font, p.fontCache.lookup r = some (load, font) →
    ∀ name, ∃ fresh, s.buildFont name (.ref r) = .ok fresh ∧ font.Alike fresh

variable {s : Setting} {p p' q : Processor} {ref : Option ObjectRef} {spec : Object}

theorem FontsCoherent.of_cache (h : p.FontsCoherent s) (hcache : q.fontCache = p.fontCache) :
    q.FontsCoherent s := by
  unfold FontsCoherent at *
  rwa [hcache]

theorem FontsCoherent.of_empty (h : p.fontCache = []) : p.FontsCoherent s := by
  intro r load font hr
  rw [h] at hr
  cases hr

/-- A font that was built from the object of a reference may be remembered for it. -/
theorem FontsCoherent.cons {r : ObjectRef} {load : Nat} {name : String} {font : Font}
    (hblind : s.load.NameBlind) (h : p.FontsCoherent s)
    (hfont : s.buildFont name (.ref r) = .ok font)
    (hcache : q.fontCache = (r, load, font) :: p.fontCache) : q.FontsCoherent s := by
  intro r' load' font' hr' name'
  rw [hcache, List.lookup_cons] at hr'
  split at hr'
  · rename_i heq
    cases hr'
    rw [eq_of_beq heq]
    exact Setting.buildFont_alike hblind hfont name'
  · exact h r' load' font' hr' name'

theorem buildFont_of_foundBy {r : ObjectRef} (h : s.table.FoundBy spec (some r)) (name : String) :
    s.buildFont name spec = s.buildFont name (.ref r) := by
  simp only [Setting.buildFont, h r rfl]

/-- The processor that has built a font, and remembers it if there is a reference to it. -/
def learned (p : Processor) (ref : Option ObjectRef) (font : Font) : Processor :=
  { p with
    fontCache := ref.elim p.fontCache fun r => (r, p.fontLoads, font) :: p.fontCache
    fontLoads := p.fontLoads + 1 }

theorem loadFont_unknown (h : (ref.bind fun r => p.fontCache.lookup r) = none) (name : String) :
    p.loadFont s name ref spec = (fun font => (⟨name, p.fontLoads, font⟩, p.learned ref font)) <$>
      s.buildFont name spec := by
  unfold loadFont
  rw [h]
  simp only [Setting.buildFont, map_bind]
  refine bind_congr fun dict => ?_
  cases ref <;> cases s.load s.table name dict <;> rfl

theorem FontsCoherent.learned {name : String} {font : Font} (hblind : s.load.NameBlind)
    (h : p.FontsCoherent s)
    (hfound : s.table.FoundBy spec ref) (hfont : s.buildFont name spec = .ok font) :
    (p.learned ref font).FontsCoherent s := by
  cases ref with
  | none => exact h.of_cache rfl
  | some r =>
    rw [buildFont_of_foundBy hfound] at hfont
    exact .cons hblind h hfont rfl

/-- **Loading.** From a coherent memory comes a font that is like a new one, or the error of building
one, and the memory stays coherent. -/
theorem loadFont_cases (hblind : s.load.NameBlind) (hp : p.FontsCoherent s)
    (hfound : s.table.FoundBy spec ref) (name : String) :
    (∃ e, s.buildFont name spec = .error e ∧ p.loadFont s name ref spec = .error e) ∨
    ∃ fresh font q, s.buildFont name spec = .ok fresh ∧
      p.loadFont s name ref spec = .ok (font, q) ∧ font.name = name ∧ font.font.Alike fresh ∧
      q.FontsCoherent s := by
  cases hknown : ref.bind fun r => p.fontCache.lookup r with
  | some known =>
    obtain ⟨load, font⟩ := known
    have hload : p.loadFont s name ref spec = .ok (⟨name, load, font⟩, p) := by
      rw [loadFont, hknown]
    obtain ⟨r, rfl, hr⟩ := Option.bind_eq_some_iff.1 hknown
    obtain ⟨fresh, hfresh, halike⟩ := hp r load font hr name
    rw [← buildFont_of_foundBy hfound] at hfresh
    exact .inr ⟨fresh, _, _, hfresh, hload, rfl, halike, hp⟩
  | none =>
    rw [loadFont_unknown hknown]
    cases hfresh : s.buildFont name spec with
    | error e => exact .inl ⟨e, rfl, rfl⟩
    | ok fresh => exact .inr ⟨fresh, _, _, rfl, rfl, rfl, .refl fresh, .learned hblind hp hfound hfresh⟩

/-- Two coherent memories give fonts that are alike. -/
theorem loadFont_agree (hblind : s.load.NameBlind) (hp : p.FontsCoherent s) (hp' : p'.FontsCoherent s)
    (hfound : s.table.FoundBy spec ref) (name : String) :
    Agree (fun found found' => found.1.Alike found'.1 ∧ found.2.FontsCoherent s ∧
      found'.2.FontsCoherent s) (p.loadFont s name ref spec) (p'.loadFont s name ref spec) := by
  rcases loadFont_cases hblind hp hfound name with
    ⟨e, hfresh, hload⟩ | ⟨fresh, font, q, hfresh, hload, hname, halike, hq⟩
  · rcases loadFont_cases hblind hp' hfound name with ⟨e', hfresh', hload'⟩ | ⟨_, _, _, hfresh', -⟩
    · obtain rfl : e = e' := Except.error.inj (hfresh.symm.trans hfresh')
      rw [hload, hload']
      exact .error e
    · cases hfresh.symm.trans hfresh'
  · rcases loadFont_cases hblind hp' hfound name with
      ⟨_, hfresh', -⟩ | ⟨fresh', font', q', hfresh', hload', hname', halike', hq'⟩
    · cases hfresh.symm.trans hfresh'
    · obtain rfl : fresh = fresh' := Except.ok.inj (hfresh.symm.trans hfresh')
      rw [hload, hload']
      exact .ok ⟨⟨hname.trans hname'.symm, halike.trans halike'.symm⟩, hq, hq'⟩

end Processor

/-! ## Graphics states -/

namespace GraphicsState

variable {g g' h : GraphicsState}

def withFont (g : GraphicsState) (font : Option SelectedFont) : GraphicsState :=
  { g with text.font := font }

/-- The graphics states are the same, but for fonts that are alike. -/
structure Alike (g h : GraphicsState) : Prop where
  rest : h = g.withFont h.text.font
  font : Option.Rel SelectedFont.Alike g.text.font h.text.font

/-- The codes of a string in the selected font, with their texts and advances. -/
def glyphs (g : GraphicsState) (bytes : List UInt8) :
    Option (List (Nat × Option String × Option Decimal)) :=
  g.text.font.map fun selected => (selected.font.decode bytes).map fun c =>
    (c.code, selected.font.text? c.code, g.advance? selected.font c)

theorem Alike.refl (g : GraphicsState) : g.Alike g := by
  refine ⟨rfl, ?_⟩
  cases g.text.font with
  | none => exact .none
  | some font => exact .some ⟨rfl, .refl font.font⟩

theorem advance?_alike (g : GraphicsState) {f f' : Font} (h : f.Alike f') (c : CharCode) :
    g.advance? f c = g.advance? f' c := by
  simp only [advance?, h.width]

theorem advance?_withFont (g : GraphicsState) (selected : Option SelectedFont) (font : Font)
    (c : CharCode) : (g.withFont selected).advance? font c = g.advance? font c := by
  simp only [advance?, withFont, TextState.horizontalScale]

/-- In graphics states that are alike, strings are shown alike. -/
theorem Alike.glyphs (h : g.Alike g') (bytes : List UInt8) : g.glyphs bytes = g'.glyphs bytes := by
  obtain ⟨hrest, hfont⟩ := h
  have hadvance : ∀ font c, g'.advance? font c = g.advance? font c := by
    intro font c
    rw [hrest, advance?_withFont]
  unfold GraphicsState.glyphs
  generalize g.text.font = selected at hfont
  generalize g'.text.font = selected' at hfont
  cases hfont with
  | none => rw [Option.map_none, Option.map_none]
  | some halike =>
    simp only [Option.map_some, hadvance, halike.font.decode, halike.font.text,
      g.advance?_alike halike.font]

end GraphicsState

namespace StateDict

variable {s : Setting} {p p' : Processor} {g g' : GraphicsState}

/-- An entry that is not about the font has nothing to do with it. -/
theorem applyEntry_withFont (table : ObjectTable) (key : String) (value : Object)
    (g : GraphicsState) (font : Option SelectedFont) :
    applyEntry table key value (g.withFont font) =
      (·.withFont font) <$> applyEntry table key value g := by
  unfold applyEntry
  split
  case h_17 => rfl
  all_goals
    simp only [map_bind, map_pure]
    rfl

theorem applyEntry_font {table : ObjectTable} {key : String} {value : Object}
    (h : applyEntry table key value g = .ok g') : g'.text.font = g.text.font := by
  have hsame : applyEntry table key value g =
      (·.withFont g.text.font) <$> applyEntry table key value g :=
    applyEntry_withFont table key value g g.text.font
  rw [h] at hsame
  exact congrArg (·.text.font) (Except.ok.inj hsame)

theorem applyEntry_agree (table : ObjectTable) (key : String) (value : Object) (hg : g.Alike g') :
    Agree GraphicsState.Alike (applyEntry table key value g) (applyEntry table key value g') := by
  obtain ⟨hrest, hfont⟩ := hg
  rw [hrest, applyEntry_withFont]
  cases happly : applyEntry table key value g with
  | error e => exact .error e
  | ok h => exact .ok ⟨rfl, applyEntry_font happly ▸ hfont⟩

theorem applyFont_depth (s : Setting) (p : Processor) (value : Object) (g : GraphicsState) :
    (applyFont s p value g).2.depth = p.depth := by
  rcases Processor.applyFont_cases s p value g with hsame | ⟨_, _, _, _, hload⟩
  · rw [hsame]
  · have hsame := Processor.loadFont_sameButFonts hload
    unfold Processor.SameButFonts at hsame
    rw [hsame]

/-- The entry about the font selects fonts that are alike from two coherent memories. -/
theorem applyFont_agree (hblind : s.load.NameBlind) (hp : p.FontsCoherent s) (hp' : p'.FontsCoherent s)
    (hdepth : p.depth = p'.depth) (value : Object) (hg : g.Alike g') :
    Agree GraphicsState.Alike (applyFont s p value g).1 (applyFont s p' value g').1 ∧
      (applyFont s p value g).2.FontsCoherent s ∧ (applyFont s p' value g').2.FontsCoherent s := by
  unfold applyFont
  split
  · exact ⟨.error _, hp, hp'⟩
  · rename_i spec size _
    have hload := Processor.loadFont_agree hblind hp hp' (s.table.foundBy_asRef spec)
      (fontLabel p.depth spec.asRef.toOption)
    dsimp only
    rw [← hdepth]
    revert hload
    generalize p.loadFont s _ _ spec = found
    generalize p'.loadFont s _ _ spec = found'
    intro hload
    cases hload with
    | error e => exact ⟨.error e, hp, hp'⟩
    | ok hfound =>
      obtain ⟨halike, hq, hq'⟩ := hfound
      refine ⟨?_, hq, hq'⟩
      cases view "Font" (s.table.resolve size).asNumber with
      | error e => exact .error e
      | ok size =>
        refine .ok ⟨?_, .some halike⟩
        rw [hg.rest]
        rfl
  · exact ⟨.error _, hp, hp'⟩

/-- Entries are applied alike from two coherent memories. -/
theorem applyEntries_agree (hblind : s.load.NameBlind) (d : List (String × Object))
    (hp : p.FontsCoherent s) (hp' : p'.FontsCoherent s) (hdepth : p.depth = p'.depth) (hg : g.Alike g') :
    Agree GraphicsState.Alike (applyEntries s p g d).1 (applyEntries s p' g' d).1 ∧
      (applyEntries s p g d).2.FontsCoherent s ∧ (applyEntries s p' g' d).2.FontsCoherent s := by
  induction d generalizing p p' g g' with
  | nil => exact ⟨.ok hg, hp, hp'⟩
  | cons entry rest ih =>
    obtain ⟨key, raw⟩ := entry
    simp only [applyEntries]
    by_cases hkey : key = "Font"
    · simp only [if_pos hkey]
      have hfont := applyFont_agree hblind hp hp' hdepth (s.table.resolve raw) hg
      have hdepth₁ := applyFont_depth s p (s.table.resolve raw) g
      have hdepth₂ := applyFont_depth s p' (s.table.resolve raw) g'
      revert hfont hdepth₁ hdepth₂
      generalize applyFont s p (s.table.resolve raw) g = applied
      generalize applyFont s p' (s.table.resolve raw) g' = applied'
      obtain ⟨result, q⟩ := applied
      obtain ⟨result', q'⟩ := applied'
      rintro ⟨hagree, hq, hq'⟩ hdepth₁ hdepth₂
      cases hagree with
      | error e => exact ⟨.error e, hq, hq'⟩
      | ok halike => exact ih hq hq' (hdepth₁.trans (hdepth.trans hdepth₂.symm)) halike
    · simp only [if_neg hkey]
      have hagree := applyEntry_agree s.table key (s.table.resolve raw) hg
      revert hagree
      generalize applyEntry s.table key (s.table.resolve raw) g = result
      generalize applyEntry s.table key (s.table.resolve raw) g' = result'
      intro hagree
      cases hagree with
      | error e => exact ⟨.error e, hp, hp'⟩
      | ok halike => exact ih hp hp' hdepth halike

theorem spreadOverprint_alike (d : Dict) (hg : g.Alike g') :
    (spreadOverprint d g).Alike (spreadOverprint d g') := by
  unfold spreadOverprint
  split
  · refine ⟨?_, hg.font⟩
    rw [hg.rest]
    rfl
  · exact hg

end StateDict

/-! ## Operators that select fonts -/

/-- Both replies tell the same, and the graphics states are alike. -/
inductive Reply.Alike : Reply → Reply → Prop
  | done {p p' : Processor} : p.gstate.Alike p'.gstate → p.log = p'.log → Alike (.done p) (.done p')
  | failed {p p' : Processor} (e : Error) : p.gstate.Alike p'.gstate → p.log = p'.log →
      p.depth = p'.depth → Alike (.failed p e) (.failed p' e)

namespace Processor

variable {s : Setting} {p q q' : Processor}

/-- The processor without the fonts that it remembers. -/
def forgetFonts (p : Processor) : Processor := { p with fontCache := [] }

theorem forgetFonts_coherent (s : Setting) (p : Processor) : p.forgetFonts.FontsCoherent s :=
  .of_empty rfl

theorem SameButFonts.forgotten (h : SameButFonts p q) (h' : SameButFonts p.forgetFonts q') :
    q.gstate = q'.gstate ∧ q.log = q'.log ∧ q.depth = q'.depth := by
  unfold SameButFonts at h h'
  rw [h, h']
  exact ⟨rfl, rfl, rfl⟩

theorem selectFont_alike (hblind : s.load.NameBlind) (hp : p.FontsCoherent s) (name : String)
    (size : Decimal) :
    (Reply.commit p (p.selectFont s name size)).Alike
        (.commit p.forgetFonts (p.forgetFonts.selectFont s name size)) ∧
      (Reply.commit p (p.selectFont s name size)).processor.FontsCoherent s := by
  have hlookup : p.forgetFonts.lookup s "Font" name = p.lookup s "Font" name := rfl
  unfold selectFont
  rw [hlookup]
  cases hfound : p.lookup s "Font" name with
  | error e => exact ⟨.failed e (.refl _) rfl rfl, hp⟩
  | ok found =>
    have hload := loadFont_agree hblind hp (p.forgetFonts_coherent s)
      (ObjectTable.foundBy_lookup hfound) name
    dsimp only [bind, Except.bind]
    generalize hx : p.loadFont s name found.ref found.object = x at hload ⊢
    generalize hx' : p.forgetFonts.loadFont s name found.ref found.object = x' at hload ⊢
    cases hload with
    | error e => exact ⟨.failed e (.refl _) rfl rfl, hp⟩
    | ok hloaded =>
      obtain ⟨halike, hq, -⟩ := hloaded
      obtain ⟨hgstate, hlog, -⟩ :=
        (loadFont_sameButFonts hx).forgotten (loadFont_sameButFonts hx')
      refine ⟨.done ⟨?_, .some halike⟩ hlog, hq.of_cache rfl⟩
      rw [hgstate]
      rfl

theorem applyStateDict_alike (hblind : s.load.NameBlind) (hp : p.FontsCoherent s) (name : String) :
    (p.applyStateDict s name).Alike (p.forgetFonts.applyStateDict s name) ∧
      (p.applyStateDict s name).processor.FontsCoherent s := by
  have hlookup : p.forgetFonts.lookup s "ExtGState" name = p.lookup s "ExtGState" name := rfl
  unfold applyStateDict
  rw [hlookup]
  cases p.lookup s "ExtGState" name >>= fun found => found.object.asDict with
  | error e => exact ⟨.failed e (.refl _) rfl rfl, hp⟩
  | ok d =>
    have hagree :=
      StateDict.applyEntries_agree hblind d hp (p.forgetFonts_coherent s) rfl (.refl p.gstate)
    have hsame := (applyEntries_steps (s := s) (n := 0) (b := true) d p p.gstate).2
    have hsame' := (applyEntries_steps (s := s) (n := 0) (b := true) d p.forgetFonts p.gstate).2
    have hgstate : p.forgetFonts.gstate = p.gstate := rfl
    dsimp only
    rw [hgstate]
    revert hagree hsame hsame'
    generalize StateDict.applyEntries s p p.gstate d = applied
    generalize StateDict.applyEntries s p.forgetFonts p.gstate d = applied'
    obtain ⟨result, q⟩ := applied
    obtain ⟨result', q'⟩ := applied'
    rintro ⟨hagree, hq, -⟩ hsame hsame'
    obtain ⟨hgstate, hlog, hdepth⟩ := hsame.forgotten hsame'
    cases hagree with
    | error e => exact ⟨.failed e (hgstate ▸ .refl q.gstate) hlog hdepth, hq⟩
    | ok halike =>
      exact ⟨.done (StateDict.spreadOverprint_alike d halike) hlog, hq.of_cache rfl⟩

theorem settle_alike {reply reply' : Reply} (h : reply.Alike reply') (pos : Nat) (word : String) :
    (settle pos word reply).gstate.Alike (settle pos word reply').gstate ∧
      (settle pos word reply).log = (settle pos word reply').log := by
  cases h with
  | done hgstate hlog => exact ⟨hgstate, hlog⟩
  | failed e hgstate hlog hdepth =>
    refine ⟨hgstate, ?_⟩
    simp only [settle, report, hlog, hdepth]

/-- An operator does not depend on what is remembered if its instructions do not. -/
theorem executeWord_forgetFonts {word : String} {op : Operator} {arity : Arity}
    (hfind : Operator.find? word = some (op, arity)) (nested : NestedRunner)
    (h : ∀ args i, op.read ⟨word, args⟩ = .ok i →
      (p.perform s nested i).Alike (p.forgetFonts.perform s nested i)) (args : List Object) :
    (p.executeWord s nested word args).gstate.Alike
        (p.forgetFonts.executeWord s nested word args).gstate ∧
      (p.executeWord s nested word args).log = (p.forgetFonts.executeWord s nested word args).log := by
  simp only [executeWord, hfind]
  split
  · unfold operate
    cases hread : op.read ⟨word, args⟩ with
    | error e => exact settle_alike (.failed e (.refl _) rfl rfl) p.pos word
    | ok i => exact settle_alike (h args i hread) p.pos word
  · exact ⟨.refl _, rfl⟩

/-- **Selecting fonts.** By its name or by a graphics state, a font is selected as if nothing was
remembered. -/
theorem executeWord_alike (hblind : s.load.NameBlind) (hp : p.FontsCoherent s) {word : String}
    (hword : word ∈ ["Tf", "gs"]) (nested : NestedRunner) (args : List Object) :
    (p.executeWord s nested word args).gstate.Alike
        (p.forgetFonts.executeWord s nested word args).gstate ∧
      (p.executeWord s nested word args).log = (p.forgetFonts.executeWord s nested word args).log := by
  simp only [List.mem_cons, List.not_mem_nil, or_false] at hword
  rcases hword with rfl | rfl
  · have hfind : Operator.find? "Tf" = some (.font, .exact 2) := rfl
    refine executeWord_forgetFonts hfind nested (fun args i hread => ?_) args
    obtain ⟨name, -, hread⟩ := exists_of_bind_ok hread
    obtain ⟨size, -, hread⟩ := exists_of_bind_ok hread
    cases hread
    exact (selectFont_alike hblind hp name size).1
  · have hfind : Operator.find? "gs" = some (.stateDict, .exact 1) := rfl
    refine executeWord_forgetFonts hfind nested (fun args i hread => ?_) args
    obtain ⟨name, -, hread⟩ := exists_of_bind_ok hread
    cases hread
    exact (applyStateDict_alike hblind hp name).1

/-! ## Texts -/

variable {f f' : SelectedFont}

theorem showGlyph_alike (h : f.Alike f') (hload : f.load = f'.load) (s : Setting)
    (nested : NestedRunner) (operator : String) (c : CharCode) (p : Processor) :
    showGlyph s nested operator f c p = showGlyph s nested operator f' c p := by
  simp only [showGlyph, runGlyph, p.gstate.advance?_alike h.font, h.name, h.font.text,
    h.font.procedure, h.font.matrix, h.font.resources, hload]

theorem showCodes_alike (h : f.Alike f') (hload : f.load = f'.load) (s : Setting)
    (nested : NestedRunner) (operator : String) (codes : List CharCode) (p : Processor) :
    showCodes s nested operator f codes p = showCodes s nested operator f' codes p := by
  induction codes generalizing p with
  | nil => rfl
  | cons c codes ih =>
    simp only [showCodes, showGlyph_alike h hload]
    exact congrArg _ (funext ih)

/-- **Showing text.** Texts in fonts that are alike have the same effect on everything, streams inside
included. -/
theorem showItems_alike (h : f.Alike f') (hload : f.load = f'.load) (s : Setting)
    (nested : NestedRunner) (operator : String) (items : List TextItem) (p : Processor) :
    showItems s nested operator f items p = showItems s nested operator f' items p := by
  induction items generalizing p with
  | nil => rfl
  | cons item items ih =>
    cases item with
    | shift amount =>
      simp only [showItems]
      exact congrArg _ (funext ih)
    | string bytes =>
      simp only [showItems, h.font.decode, showCodes_alike h hload]
      exact congrArg _ (funext ih)

end Processor

end ContentStream
