import ContentStream.Proofs.Visits
import Mathlib.Data.List.Basic

/-!
# Graphics states are well formed

**Theorem (`process_wellFormed`).** At every moment of every run the graphics state at hand, all saved
ones and those in the events are well formed: codes lie in their ranges, no dash is negative, and each
of the two colours is one of its colour space.

A colour and its space are set by different operators, so the argument is about the two together
(`ColorSpace.Admits`). Selecting a space brings its initial colour along. A colour is read from operands
by the space at hand, which says how many there must be; that the result is of the right kind is due
to the space being `Regular`: the families with colours of their own kind have the number of components
of that kind. All spaces that can be selected are (`ofName_regular`), and a space that admits any colour
is (`Admits.regular`), so nothing about spaces has to be carried along.
-/

namespace ContentStream

/-! ## Colours and spaces -/

/-- A colour of a pattern space over `base`: none yet, a pattern with colours of its own, or one
without and the components in which it is painted. -/
inductive Color.OfPattern (base : Option ColorSpace) : Color → Prop
  | unset : OfPattern base (.components [])
  | colored (name : String) : (∀ space ∈ base, space.ncomponents = 0) →
      OfPattern base (.patternColored name)
  | uncolored {space : ColorSpace} {values : List Decimal} (name : String) :
      base = some space → 0 < space.ncomponents → values.length = space.ncomponents →
      OfPattern base (.patternUncolored values name)

/-- A colour of a space that is no pattern space. It has as many components as the space, and its kind
is that of the family. -/
structure Color.OfPlain (space : ColorSpace) (color : Color) : Prop where
  notPattern : color.isPattern = false
  size : color.values.length = space.ncomponents
  gray : (∃ g, color = .gray g) ↔ space.family = .deviceGray ∨ space.family = .calGray
  rgb : (∃ r g b, color = .rgb r g b) ↔ space.family = .deviceRgb ∨ space.family = .calRgb
  cmyk : (∃ c m y k, color = .cmyk c m y k) ↔ space.family = .deviceCmyk

/-- The number of components in a family whose colours are of a kind of their own. -/
def ColorFamily.size? : ColorFamily → Option Nat
  | .deviceGray | .calGray => some 1
  | .deviceRgb | .calRgb => some 3
  | .deviceCmyk => some 4
  | _ => none

theorem length_of_mapM_ok {α β : Type} {f : α → Except Error β} {l : List α} {values : List β}
    (h : l.mapM f = .ok values) : values.length = l.length := by
  induction l generalizing values with
  | nil =>
    cases h
    rfl
  | cons a rest ih =>
    rw [List.mapM_cons] at h
    obtain ⟨b, -, h⟩ := exists_of_bind_ok h
    obtain ⟨values', hrest, h⟩ := exists_of_bind_ok h
    cases h
    rw [List.length_cons, List.length_cons, ih hrest]

namespace ColorSpace

variable {space : ColorSpace} {color : Color} {table : ObjectTable}

/-- A colour can be current while the space is. -/
def Admits (space : ColorSpace) (color : Color) : Prop :=
  if space.isPattern then color.OfPattern space.base else color.OfPlain space

theorem Admits.ofPlain (h : space.Admits color) (hpattern : space.isPattern = false) :
    color.OfPlain space := by
  rwa [Admits, hpattern, if_neg Bool.false_ne_true] at h

/-- The number of components is that of the family, where the family has one. -/
def Regular (space : ColorSpace) : Prop := ∀ n ∈ space.family.size?, space.ncomponents = n

instance (space : ColorSpace) : Decidable space.Regular :=
  Option.decidableForallMem space.family.size?

theorem Admits.regular (h : space.Admits color) : space.Regular := by
  obtain ⟨family, n, base, resource⟩ := space
  have hsize : ∀ m ∈ family.size?, color.values.length = m := by
    intro m hm
    cases family <;> cases hm
    case deviceGray | calGray =>
      obtain ⟨g, rfl⟩ := (h.ofPlain rfl).gray.2 (by simp)
      rfl
    case deviceRgb | calRgb =>
      obtain ⟨r, g, b, rfl⟩ := (h.ofPlain rfl).rgb.2 (by simp)
      rfl
    case deviceCmyk =>
      obtain ⟨c, m, y, k, rfl⟩ := (h.ofPlain rfl).cmyk.2 rfl
      rfl
  intro m hm
  have hpattern : (ColorSpace.mk family n base resource).isPattern = false := by
    cases family
    case pattern => cases hm
    all_goals rfl
  exact (h.ofPlain hpattern).size.symm.trans (hsize m hm)

/-- **Initial colours.** -/
theorem Regular.admits_initialColor (h : space.Regular) : space.Admits space.initialColor := by
  obtain ⟨family, n, base, resource⟩ := space
  cases family
  case pattern => exact .unset
  all_goals
    refine ⟨rfl, ?_, ?_, ?_, ?_⟩ <;>
      simp_all [Regular, ColorFamily.size?, initialColor, Color.values]

/-- **Colours from components.** -/
theorem Regular.admits_colorOf (h : space.Regular) (hpattern : space.isPattern = false)
    {values : List Decimal} (hsize : values.length = space.ncomponents) :
    space.Admits (space.colorOf values) := by
  obtain ⟨family, n, base, resource⟩ := space
  cases family
  case pattern => cases hpattern
  case deviceGray | calGray =>
    obtain ⟨g, rfl⟩ := List.length_eq_one_iff.1 (hsize.trans (h 1 rfl))
    refine ⟨rfl, hsize, ?_, ?_, ?_⟩ <;> simp [colorOf]
  case deviceRgb | calRgb =>
    obtain ⟨r, g, b, rfl⟩ := List.length_eq_three.1 (hsize.trans (h 3 rfl))
    refine ⟨rfl, hsize, ?_, ?_, ?_⟩ <;> simp [colorOf]
  case deviceCmyk =>
    obtain ⟨c, m, y, k, rfl⟩ := List.length_eq_four.1 (hsize.trans (h 4 rfl))
    refine ⟨rfl, hsize, ?_, ?_, ?_⟩ <;> simp [colorOf]
  all_goals refine ⟨rfl, hsize, ?_, ?_, ?_⟩ <;> simp [colorOf]

/-- **Colours from operands.** -/
theorem Regular.admits_colorOfOperands (h : space.Regular) {args : Operands}
    (hcolor : space.colorOfOperands args = .ok color) : space.Admits color := by
  unfold colorOfOperands at hcolor
  split at hcolor
  · rename_i hpattern
    dsimp only at hcolor
    split at hcolor
    · cases hcolor
    obtain ⟨name, -, hcolor⟩ := exists_of_bind_ok hcolor
    obtain ⟨values, hvalues, hcolor⟩ := exists_of_bind_ok hcolor
    have hsize := length_of_mapM_ok hvalues
    rw [List.length_range] at hsize
    rw [Admits, if_pos hpattern]
    cases hcolor
    cases values with
    | nil =>
      refine .colored name fun base hbase => ?_
      rw [Option.mem_def.1 hbase] at hsize
      exact hsize.symm
    | cons v rest =>
      cases hbase : space.base with
      | none =>
        rw [hbase] at hsize
        cases hsize
      | some base =>
        rw [hbase] at hsize
        have hbaseSize : (v :: rest).length = base.ncomponents := hsize
        exact .uncolored name rfl (hbaseSize ▸ Nat.succ_pos _) hbaseSize
  · rename_i hpattern
    split at hcolor
    · cases hcolor
    · rename_i harity
      obtain ⟨values, hvalues, hcolor⟩ := exists_of_bind_ok hcolor
      have hsize := length_of_mapM_ok hvalues
      rw [List.length_range, not_not.1 harity] at hsize
      cases hcolor
      exact h.admits_colorOf (Bool.eq_false_iff.2 hpattern) hsize

/-! ## The spaces that can be selected -/

theorem regular_of_size?_eq_none (h : space.family.size? = none) : space.Regular := by
  intro n hn
  rw [h] at hn
  cases hn

theorem predefined?_regular {name : String} (h : predefined? name = some space) :
    space.Regular := by
  have hall : ∀ entry ∈ predefined, entry.2.Regular := by decide
  obtain ⟨before, after, htable, -⟩ := List.lookup_eq_some_iff.1 h
  refine hall (name, space) ?_
  rw [htable]
  exact List.mem_append_right _ List.mem_cons_self

theorem ofProfile_regular {profile : Stream} (h : ofProfile table profile = .ok space) :
    space.Regular := by
  unfold ofProfile at h
  dsimp only at h
  split at h
  all_goals
    obtain ⟨n, -, h⟩ := exists_of_bind_ok h
    split at h
    · cases h
      exact regular_of_size?_eq_none rfl
    · cases h

theorem ofFamily_regular {readBase : Object → Except Error ColorSpace} {family : String}
    {params : List Object} (h : ofFamily table readBase family params = .ok space) :
    space.Regular := by
  unfold ofFamily at h
  split at h
  · obtain ⟨profile, -, h⟩ := exists_of_bind_ok h
    obtain ⟨stream, -, h⟩ := exists_of_bind_ok h
    exact ofProfile_regular h
  · obtain ⟨names, -, h⟩ := exists_of_bind_ok h
    obtain ⟨colorants, -, h⟩ := exists_of_bind_ok h
    cases h
    exact regular_of_size?_eq_none rfl
  · split at h
    · cases h
      decide
    · obtain ⟨base, -, rfl⟩ := exists_of_map_ok h
      exact regular_of_size?_eq_none rfl
  · cases h
    decide
  · cases h
    decide
  · cases h
    decide
  · cases h
    decide
  · cases h
    decide
  · split at h
    · cases h
      exact predefined?_regular ‹_›
    · cases h

theorem readWithin_regular {limit : Nat} {o : Object} (h : readWithin table limit o = .ok space) :
    space.Regular := by
  cases limit with
  | zero => cases h
  | succ n =>
    unfold readWithin at h
    split at h
    · exact ofFamily_regular h
    · cases h
    · obtain ⟨family, -, h⟩ := exists_of_bind_ok h
      exact ofFamily_regular h
    · cases h

/-- **Every space that a name stands for** is regular. -/
theorem ofName_regular {resources : ResourceChain} {name : String}
    (h : ofName table resources name = .ok space) : space.Regular := by
  unfold ofName at h
  split at h
  · cases h
    exact predefined?_regular ‹_›
  · obtain ⟨found, -, h⟩ := exists_of_bind_ok h
    obtain ⟨space', hread, h⟩ := exists_of_bind_ok h
    cases h
    show space'.Regular
    exact readWithin_regular hread

end ColorSpace

/-! ## Graphics states -/

/-- Codes lie in their ranges, no dash is negative, and the colours are those of their spaces. -/
structure GraphicsState.WellFormed (g : GraphicsState) : Prop where
  lineCap : g.lineCap ≤ 2
  lineJoin : g.lineJoin ≤ 2
  renderingMode : g.text.renderingMode ≤ 7
  overprintMode : g.overprintMode ≤ 1
  dash : ∀ d ∈ g.dash.lengths, 0 ≤ d
  stroke : g.strokeSpace.Admits g.strokeColor
  fill : g.fillSpace.Admits g.fillColor

namespace GraphicsState

variable {g g' : GraphicsState}

theorem wellFormed_default : ({} : GraphicsState).WellFormed where
  lineCap := by decide
  lineJoin := by decide
  renderingMode := by decide
  overprintMode := by decide
  dash := by
    intro d hd
    cases hd
  stroke := (show ColorSpace.deviceGray.Regular by decide).admits_initialColor
  fill := (show ColorSpace.deviceGray.Regular by decide).admits_initialColor

theorem styleCode_le {operator : String} {value : Int} {last code : Nat}
    (h : styleCode operator value last = .ok code) : code ≤ last := by
  unfold styleCode at h
  split at h
  · cases h
    omega
  · cases h

theorem dashPattern_nonneg {operator : String} {lengths : List Object} {phase : Decimal}
    {dash : DashPattern} (h : dashPattern operator lengths phase = .ok dash) :
    ∀ d ∈ dash.lengths, 0 ≤ d := by
  obtain ⟨values, -, h⟩ := exists_of_bind_ok h
  split at h
  · cases h
  · rename_i hany
    cases h
    intro d hd
    have hnot : d.hasMinus = false := by
      refine Bool.eq_false_iff.2 fun hneg => hany ?_
      exact List.any_eq_true.2 ⟨d, hd, hneg⟩
    have hcoeff : 0 ≤ d.coeff := (Decimal.hasMinus_eq_false_iff.1 hnot).1
    show (0 : Int) * tenPow d.scale ≤ d.coeff * tenPow 0
    rw [Int.zero_mul]
    exact Int.mul_nonneg hcoeff (Int.natCast_nonneg _)

theorem WellFormed.setColor {color : Color} {side : Side} (h : g.WellFormed)
    (hcolor : (g.space side).Admits color) : (g.setColor color side).WellFormed := by
  cases side with
  | stroke => exact { h with stroke := hcolor }
  | fill => exact { h with fill := hcolor }

theorem WellFormed.setSpace {space : ColorSpace} {color : Color} (side : Side) (h : g.WellFormed)
    (hcolor : space.Admits color) : (g.setSpace space color side).WellFormed := by
  cases side with
  | stroke => exact { h with stroke := hcolor }
  | fill => exact { h with fill := hcolor }

theorem WellFormed.regular (h : g.WellFormed) (side : Side) : (g.space side).Regular := by
  cases side with
  | stroke => exact h.stroke.regular
  | fill => exact h.fill.regular

theorem WellFormed.moveText {offset : Point} (h : g.WellFormed) (hg : g.moveText offset = .ok g') :
    g'.WellFormed := by
  obtain ⟨m, -, hg⟩ := exists_of_bind_ok hg
  cases hg
  exact { h with }

/-- A change to a colour of a device space comes with a colour that was read in that space. -/
theorem admits_of_isRead {side : Side} {space : ColorSpace} {color : Color}
    (h : (Instruction.state (.deviceColor side space color)).IsRead) : space.Admits color := by
  obtain ⟨op, args, hread⟩ := h
  have hdevice : ∃ device ∈ [ColorSpace.deviceGray, .deviceRgb, .deviceCmyk],
      args.deviceColor side device = .ok (.state (.deviceColor side space color)) := by
    have hmem := Operator.mem_operators_of_read hread
    cases side with
    | stroke =>
      simp only [Instruction.operators, StateChange.operators, List.mem_cons, List.not_mem_nil,
        or_false] at hmem
      rcases hmem with rfl | rfl | rfl <;> exact ⟨_, by simp, hread⟩
    | fill =>
      simp only [Instruction.operators, StateChange.operators, List.mem_cons, List.not_mem_nil,
        or_false] at hmem
      rcases hmem with rfl | rfl | rfl <;> exact ⟨_, by simp, hread⟩
  obtain ⟨device, hmem, hcolor⟩ := hdevice
  have hall : ∀ device ∈ [ColorSpace.deviceGray, .deviceRgb, .deviceCmyk],
      device.Regular ∧ device.isPattern = false := by decide
  obtain ⟨hregular, hpattern⟩ := hall device hmem
  obtain ⟨values, hvalues, hcolor⟩ := exists_of_bind_ok hcolor
  have hsize := length_of_mapM_ok hvalues
  rw [List.length_range] at hsize
  cases hcolor
  exact hregular.admits_colorOf hpattern hsize

theorem WellFormed.apply {c : StateChange} (h : g.WellFormed)
    (hread : (Instruction.state c).IsRead) (hg : g.apply c = .ok g') : g'.WellFormed := by
  cases c with
  | lineCap style =>
    obtain ⟨code, hcode, hg⟩ := exists_of_bind_ok hg
    cases hg
    exact { h with lineCap := styleCode_le hcode }
  | lineJoin style =>
    obtain ⟨code, hcode, hg⟩ := exists_of_bind_ok hg
    cases hg
    exact { h with lineJoin := styleCode_le hcode }
  | dash lengths phase =>
    obtain ⟨dash, hdash, hg⟩ := exists_of_bind_ok hg
    cases hg
    exact { h with dash := dashPattern_nonneg hdash }
  | concat m =>
    obtain ⟨ctm, -, hg⟩ := exists_of_bind_ok hg
    cases hg
    exact { h with }
  | deviceColor side space color =>
    cases hg
    exact h.setSpace side (admits_of_isRead hread)
  | color side args =>
    obtain ⟨color, hcolor, hg⟩ := exists_of_bind_ok hg
    cases hg
    exact h.setColor ((h.regular side).admits_colorOfOperands hcolor)
  | renderingMode mode =>
    simp only [GraphicsState.apply] at hg
    split at hg
    · cases hg
      exact { h with renderingMode := by show mode.toNat ≤ 7; omega }
    · cases hg
  | moveText offset => exact h.moveText hg
  | nextLine => exact h.moveText hg
  | moveTextLeading offset =>
    obtain ⟨moved, hmoved, hg⟩ := exists_of_bind_ok hg
    cases hg
    exact { h.moveText hmoved with }
  | _ =>
    cases hg
    exact { h with }

theorem WellFormed.advanceText {d : Decimal} (h : g.WellFormed) (hg : g.advanceText d = .ok g') :
    g'.WellFormed := by
  obtain ⟨m, -, hg⟩ := exists_of_bind_ok hg
  cases hg
  exact { h with }

end GraphicsState

namespace StateDict

open GraphicsState

variable {g g' : GraphicsState}

theorem dash_nonneg {table : ObjectTable} {key : String} {value : Object} {pattern : DashPattern}
    (h : dash table key value = .ok pattern) : ∀ d ∈ pattern.lengths, 0 ≤ d := by
  obtain ⟨parts, -, h⟩ := exists_of_bind_ok h
  split at h
  · obtain ⟨lengths, -, h⟩ := exists_of_bind_ok h
    obtain ⟨phase, -, h⟩ := exists_of_bind_ok h
    exact dashPattern_nonneg h
  · cases h

theorem applyEntry_wellFormed {table : ObjectTable} {key : String} {value : Object}
    (hg : g.WellFormed) (h : applyEntry table key value g = .ok g') : g'.WellFormed := by
  unfold applyEntry at h
  split at h
  case h_2 =>
    obtain ⟨style, -, h⟩ := exists_of_bind_ok h
    obtain ⟨code, hcode, h⟩ := exists_of_bind_ok h
    cases h
    exact { hg with lineCap := styleCode_le hcode }
  case h_3 =>
    obtain ⟨style, -, h⟩ := exists_of_bind_ok h
    obtain ⟨code, hcode, h⟩ := exists_of_bind_ok h
    cases h
    exact { hg with lineJoin := styleCode_le hcode }
  case h_5 =>
    obtain ⟨dash, hdash, h⟩ := exists_of_bind_ok h
    cases h
    exact { hg with dash := dash_nonneg hdash }
  case h_15 =>
    obtain ⟨style, -, h⟩ := exists_of_bind_ok h
    obtain ⟨code, hcode, h⟩ := exists_of_bind_ok h
    cases h
    exact { hg with overprintMode := styleCode_le hcode }
  case h_17 =>
    cases h
    exact hg
  all_goals
    obtain ⟨value, -, h⟩ := exists_of_bind_ok h
    cases h
    exact { hg with }

theorem applyFont_wellFormed {s : Setting} {p : Processor} {value : Object} (hg : g.WellFormed)
    (h : (applyFont s p value g).1 = .ok g') : g'.WellFormed := by
  unfold applyFont at h
  split at h
  · cases h
  · dsimp only at h
    split at h
    · cases h
    · obtain ⟨size, -, rfl⟩ := exists_of_map_ok h
      exact { hg with }
  · cases h

theorem applyEntries_wellFormed {s : Setting} {d : List (String × Object)} {p : Processor}
    (hg : g.WellFormed) (h : (applyEntries s p g d).1 = .ok g') : g'.WellFormed := by
  induction d generalizing p g with
  | nil =>
    cases h
    exact hg
  | cons entry rest ih =>
    obtain ⟨key, raw⟩ := entry
    simp only [applyEntries] at h
    generalize hx : (if key = "Font" then applyFont s p (s.table.resolve raw) g
      else (applyEntry s.table key (s.table.resolve raw) g, p)) = x at h
    obtain ⟨result, q⟩ := x
    cases result with
    | error e => cases h
    | ok first =>
      refine ih ?_ h
      split at hx
      · exact applyFont_wellFormed hg (congrArg Prod.fst hx)
      · exact applyEntry_wellFormed hg (congrArg Prod.fst hx)

theorem spreadOverprint_wellFormed (d : Dict) (hg : g.WellFormed) :
    (spreadOverprint d g).WellFormed := by
  unfold spreadOverprint
  split
  · exact { hg with }
  · exact hg

end StateDict

/-! ## Runs -/

namespace Processor

variable {s : Setting} {n : Nat} {b : Bool} {p q r : Processor}

/-- **Every change of the graphics state** keeps it well formed. -/
theorem StateStep.wellFormed {g : GraphicsState} (h : StateStep s p g) (hp : p.gstate.WellFormed) :
    g.WellFormed := by
  cases h with
  | change hread h => exact hp.apply hread h
  | advance h => exact hp.advanceText h
  | dict h => exact StateDict.spreadOverprint_wellFormed _ (StateDict.applyEntries_wellFormed hp h)
  | font font size => exact { hp with }
  | space side h => exact hp.setSpace side (ColorSpace.ofName_regular h).admits_initialColor
  | clip device rule => exact { hp with }

/-- All graphics states that a processor knows are well formed. -/
structure WellFormed (p : Processor) : Prop where
  gstate : p.gstate.WellFormed
  saved : ∀ g ∈ p.gstack, g.WellFormed
  told : ∀ e ∈ p.events, e.state.WellFormed

theorem Step.wellFormed (h : Step s p q) (hp : p.WellFormed) : q.WellFormed := by
  obtain ⟨told, hevents, htold⟩ := h.events
  refine ⟨?_, ?_, ?_⟩
  · rcases h.gstate with hsame | hstep
    · exact hsame ▸ hp.gstate
    · exact hstep.wellFormed hp.gstate
  · rw [h.ground.2]
    exact hp.saved
  · intro e he
    rw [hevents] at he
    rcases List.mem_append.1 he with he | he
    · exact hp.told e he
    · exact (htold e he).1 ▸ hp.gstate

theorem formEvents_state {run : NestedRun} {payload : FormInfo → EventPayload} :
    ∀ e ∈ formEvents s run payload p, e.state = p.gstate := by
  intro e he
  unfold formEvents at he
  split at he
  · split at he
    · cases List.mem_singleton.1 he
      rfl
    · cases he
  · cases he

theorem WellFormed.beginNested (hp : p.WellFormed) (run : NestedRun) (path : Option Path) :
    (p.beginNested s run path).WellFormed := by
  have hgstate : (p.beginNested s run path).gstate.WellFormed := by
    cases hsource : run.source with
    | form info ref =>
      rw [gstate_beginNested s p path hsource]
      exact { hp.gstate with }
    | glyph font procedure =>
      show (p.enter s run path).gstate.WellFormed
      simp only [enter, hsource]
      exact { hp.gstate with }
  refine ⟨hgstate, fun g hg => ?_, fun e he => ?_⟩
  · have hgstack : (p.beginNested s run path).gstack = p.gstate :: p.gstack := enter_gstack ..
    rw [hgstack] at hg
    exact (List.mem_cons.1 hg).elim (fun h => h ▸ hp.gstate) (hp.saved g)
  · rw [events_beginNested] at he
    rcases List.mem_append.1 he with he | he
    · exact hp.told e he
    · exact formEvents_state e he ▸ hgstate

theorem WellFormed.endNested {inner : Processor} {run : NestedRun} (hp : p.WellFormed)
    (hinner : inner.WellFormed) (hundisturbed : Undisturbed p (p.endNested s run inner)) :
    (p.endNested s run inner).WellFormed where
  gstate := hundisturbed.gstate ▸ hp.gstate
  saved := hundisturbed.gstack ▸ hp.saved
  told := by
    intro e he
    rw [events_endNested] at he
    rcases List.mem_append.1 he with he | he
    · exact hinner.told e he
    · exact formEvents_state e he ▸ hinner.gstate

/-- **Every course of steps** keeps all graphics states well formed. -/
theorem Steps.wellFormed (h : Steps s n b p q) (hp : p.WellFormed) : q.WellFormed := by
  induction h with
  | refl p => exact hp
  | step h => exact h.wellFormed hp
  | save p =>
    refine ⟨hp.gstate, fun g hg => ?_, hp.told⟩
    exact (List.mem_cons.1 hg).elim (fun h => h ▸ hp.gstate) (hp.saved g)
  | restore _ hg =>
    have hsaved := hp.saved
    rw [hg] at hsaved
    exact ⟨hsaved _ List.mem_cons_self, fun g' hg' => hsaved g' (List.mem_cons_of_mem _ hg'), hp.told⟩
  | nested _ _ _ hsteps hopen ih =>
    exact hp.endNested (ih (hp.beginNested _ _)) (nested_undisturbed hsteps.stays hopen)
  | trans _ _ ih₁ ih₂ => exact ih₂ (ih₁ hp)

theorem wellFormed_beginPage (s : Setting) (cancelIn : Option Nat) (resources : Dict) :
    (beginPage s cancelIn resources).WellFormed where
  gstate := { GraphicsState.wellFormed_default with }
  saved := by
    intro g hg
    cases hg
  told := by
    intro e he
    cases he

theorem WellFormed.ended (h : p.WellFormed) : p.ended.WellFormed where
  gstate := by
    unfold Processor.ended
    split
    · exact GraphicsState.wellFormed_default
    · exact h.gstate
  saved := by
    intro g hg
    unfold Processor.ended at hg
    split at hg <;> cases hg
  told := fun e he => h.told e (p.ended_events_isPrefix.subset he)

/-- **Every moment** of a run knows well formed graphics states only. -/
theorem Moment.wellFormed {running : List NestedSource} (h : Moment s p n running q)
    (hp : p.WellFormed) : q.WellFormed := by
  induction h with
  | start => exact hp
  | course _ hsteps ih => exact hsteps.wellFormed ih
  | inside _ _ _ _ ih => exact ih.beginNested _ _

/-- **Well-formedness.** From a moment of a run the execution of any items leads to a moment again, and
at each moment the graphics state at hand, the saved ones and those in the events are well formed. So
are those of every activation that a page comes to, those that the page leaves behind and those in all
its events. -/
theorem process_wellFormed (s : Setting) (cancelIn : Option Nat) (segments : List (List UInt8))
    (resources : Dict) :
    (∀ n running q, Moment s (beginPage s cancelIn resources) n running q →
      q.WellFormed ∧ ∀ items operands,
        Moment s (beginPage s cancelIn resources) n running
          (executeItems s (runner s n) items operands q)) ∧
    (∀ a, (Activation.ofSegments segments (beginPage s cancelIn resources)).Visits s a →
      a.processor.WellFormed) ∧
    ∃ outcome q, (start s cancelIn).process s segments resources = .ok (outcome, q) ∧
      q.WellFormed := by
  have hpage := wellFormed_beginPage s cancelIn resources
  refine ⟨fun n running q h => ⟨h.wellFormed hpage, h.executeItems⟩, fun a ha => ?_, ?_⟩
  · obtain ⟨n, running, hmoment⟩ := ha.moment_of_page
    exact hmoment.wellFormed hpage
  obtain ⟨inner, hsteps, -, heq⟩ := execute_steps (runner_steps s s.config.maxDepth)
    (beginPage s cancelIn resources) (Content.items segments)
  have hinner : inner.WellFormed := hsteps.wellFormed hpage
  have hran : ((beginPage s cancelIn resources).execute s (runner s s.config.maxDepth)
      (Content.items segments)).WellFormed := by
    rw [heq]
    exact ⟨hinner.gstate, hinner.saved, hinner.told⟩
  exact ⟨_, _, rfl, hran.ended⟩

end Processor

end ContentStream
