import ContentStream.Proofs.Bookkeeping
import Mathlib.Data.List.Perm.Basic

/-!
# The order of a dictionary of graphics states

Entries are applied from left to right until one is wrong, and a last step looks at two keys
together.

**Theorem (`operate_stateDict_perm`).** Two dictionaries with the same entries in different orders
fail both and leave the graphics state alone, or succeed both and give the same graphics state. The
overprint flags come out as the entries say, wherever they stand.

Each entry sets one parameter of the graphics state, and what it sets does not depend on the graphics
state (`Parameter`, `applyEntry_sets`). Parameters of different keys commute. The font is the one
parameter that depends on the processor, which remembers fonts, and no other entry does anything to
the processor. So two neighbouring entries can be swapped (`applyEntries_swap`), also when one of them
is wrong.
-/

namespace ContentStream

namespace StateDict

/-- What an entry sets. -/
inductive Parameter where
  | lineWidth (width : Decimal)
  | lineCap (code : Nat)
  | lineJoin (code : Nat)
  | miterLimit (limit : Decimal)
  | dash (pattern : DashPattern)
  | renderingIntent (name : String)
  | flatness (tolerance : Decimal)
  | strokeAdjust (flag : Bool)
  | blendMode (name : String)
  | softMask (mask : Option Object)
  | strokeAlpha (alpha : Decimal)
  | fillAlpha (alpha : Decimal)
  | overprintStroke (flag : Bool)
  | overprintFill (flag : Bool)
  | overprintMode (code : Nat)
  | knockout (flag : Bool)
  | font (selected : SelectedFont) (size : Decimal)
  /-- An entry that is passed over. -/
  | unknown (key : String)

namespace Parameter

/-- The key of the entry. -/
def key : Parameter → String
  | lineWidth _ => "LW"
  | lineCap _ => "LC"
  | lineJoin _ => "LJ"
  | miterLimit _ => "ML"
  | dash _ => "D"
  | renderingIntent _ => "RI"
  | flatness _ => "FL"
  | strokeAdjust _ => "SA"
  | blendMode _ => "BM"
  | softMask _ => "SMask"
  | strokeAlpha _ => "CA"
  | fillAlpha _ => "ca"
  | overprintStroke _ => "OP"
  | overprintFill _ => "op"
  | overprintMode _ => "OPM"
  | knockout _ => "TK"
  | font .. => "Font"
  | unknown key => key

def set (g : GraphicsState) : Parameter → GraphicsState
  | lineWidth width => { g with lineWidth := width }
  | lineCap code => { g with lineCap := code }
  | lineJoin code => { g with lineJoin := code }
  | miterLimit limit => { g with miterLimit := limit }
  | dash pattern => { g with dash := pattern }
  | renderingIntent name => { g with renderingIntent := name }
  | flatness tolerance => { g with flatness := tolerance }
  | strokeAdjust flag => { g with strokeAdjust := flag }
  | blendMode name => { g with blendMode := name }
  | softMask mask => { g with softMask := mask }
  | strokeAlpha alpha => { g with strokeAlpha := alpha }
  | fillAlpha alpha => { g with fillAlpha := alpha }
  | overprintStroke flag => { g with overprintStroke := flag }
  | overprintFill flag => { g with overprintFill := flag }
  | overprintMode code => { g with overprintMode := code }
  | knockout flag => { g with text := { g.text with knockout := flag } }
  | font selected size => { g with text := { g.text with font := some selected, fontSize := size } }
  | unknown _ => g

/-- Entries under different keys commute. -/
theorem set_comm {a b : Parameter} (h : a.key ≠ b.key) (g : GraphicsState) :
    b.set (a.set g) = a.set (b.set g) := by
  cases a <;> cases b <;> first | rfl | exact absurd rfl h

end Parameter

variable {s : Setting} {p : Processor}

/-! ## What an entry sets -/

/-- A change of the graphics state that sets a parameter under `key`, whatever the graphics state is,
or fails. -/
def Sets (key : String) (change : GraphicsState → Option GraphicsState) : Prop :=
  ∃ found : Option Parameter, (∀ c ∈ found, c.key = key) ∧ ∀ g, change g = found.map (·.set g)

theorem sets_of_read {α : Type} {key : String} {change : GraphicsState → Except Error GraphicsState}
    (value : Except Error α) (c : α → Parameter) (hkey : ∀ a, (c a).key = key)
    (h : ∀ g, change g = do return (c (← value)).set g) : Sets key fun g => (change g).toOption := by
  refine ⟨value.toOption.map c, ?_, fun g => ?_⟩
  · intro found hfound
    obtain ⟨a, -, rfl⟩ := Option.map_eq_some_iff.1 hfound
    exact hkey a
  · simp only [h]
    cases value <;> rfl

/-- An entry that is not about the font. -/
theorem applyEntry_sets (table : ObjectTable) (key : String) (value : Object) :
    Sets key fun g => (applyEntry table key value g).toOption := by
  unfold applyEntry
  split
  · exact sets_of_read _ .lineWidth (fun _ => rfl) fun _ => rfl
  · exact sets_of_read _ .lineCap (fun _ => rfl) fun _ => (bind_assoc ..).symm
  · exact sets_of_read _ .lineJoin (fun _ => rfl) fun _ => (bind_assoc ..).symm
  · exact sets_of_read _ .miterLimit (fun _ => rfl) fun _ => rfl
  · exact sets_of_read _ .dash (fun _ => rfl) fun _ => rfl
  · exact sets_of_read _ .renderingIntent (fun _ => rfl) fun _ => rfl
  · exact sets_of_read _ .flatness (fun _ => rfl) fun _ => rfl
  · exact sets_of_read _ .strokeAdjust (fun _ => rfl) fun _ => rfl
  · exact sets_of_read _ .blendMode (fun _ => rfl) fun _ => rfl
  · exact sets_of_read _ .softMask (fun _ => rfl) fun _ => rfl
  · exact sets_of_read _ .strokeAlpha (fun _ => rfl) fun _ => rfl
  · exact sets_of_read _ .fillAlpha (fun _ => rfl) fun _ => rfl
  · exact sets_of_read _ .overprintStroke (fun _ => rfl) fun _ => rfl
  · exact sets_of_read _ .overprintFill (fun _ => rfl) fun _ => rfl
  · exact sets_of_read _ .overprintMode (fun _ => rfl) fun _ => (bind_assoc ..).symm
  · exact sets_of_read _ .knockout (fun _ => rfl) fun _ => rfl
  · exact ⟨some (.unknown key), by simp [Parameter.key], fun _ => rfl⟩

/-- The entry about the font. -/
theorem applyFont_sets (s : Setting) (p : Processor) (value : Object) :
    Sets "Font" fun g => (applyFont s p value g).1.toOption := by
  unfold applyFont
  split
  · exact ⟨none, by simp, fun _ => rfl⟩
  · rename_i spec size _
    dsimp only
    cases p.loadFont s (fontLabel p.depth spec.asRef.toOption) spec.asRef.toOption spec with
    | error e => exact ⟨none, by simp, fun _ => rfl⟩
    | ok found =>
      refine sets_of_read (view "Font" (s.table.resolve size).asNumber) (.font found.1)
        (fun _ => rfl) fun g => ?_
      cases view "Font" (s.table.resolve size).asNumber <;> rfl
  · exact ⟨none, by simp, fun _ => rfl⟩

/-- Which fonts are remembered has nothing to do with the graphics state. -/
theorem applyFont_processor (s : Setting) (p : Processor) (value : Object) (g g' : GraphicsState) :
    (applyFont s p value g).2 = (applyFont s p value g').2 := by
  unfold applyFont
  split
  · rfl
  · dsimp only
    split <;> rfl
  · rfl

/-! ## All entries -/

/-- What comes of the entries for the graphics state, if all of them are right. -/
def outcome (s : Setting) (p : Processor) (g : GraphicsState) (d : List (String × Object)) :
    Option GraphicsState :=
  (applyEntries s p g d).1.toOption

/-- One entry: what comes of it for the graphics state, and the fonts that are remembered. -/
def applyOne (s : Setting) (p : Processor) (g : GraphicsState) (entry : String × Object) :
    Except Error GraphicsState × Processor :=
  if entry.1 = "Font" then applyFont s p (s.table.resolve entry.2) g
  else (applyEntry s.table entry.1 (s.table.resolve entry.2) g, p)

theorem outcome_eq_bind (s : Setting) (p : Processor) (g : GraphicsState) (entry : String × Object)
    (rest : List (String × Object)) :
    outcome s p g (entry :: rest) =
      (applyOne s p g entry).1.toOption.bind fun g' =>
        outcome s (applyOne s p g entry).2 g' rest := by
  have hone : (if entry.1 = "Font" then applyFont s p (s.table.resolve entry.2) g
    else (applyEntry s.table entry.1 (s.table.resolve entry.2) g, p)) = applyOne s p g entry := rfl
  simp only [outcome, applyEntries, hone]
  cases (applyOne s p g entry).1 <;> rfl

theorem outcome_other {entry : String × Object} (hkey : entry.1 ≠ "Font") (s : Setting) :
    ∃ found : Option Parameter, (∀ c ∈ found, c.key = entry.1) ∧
      ∀ p g rest, outcome s p g (entry :: rest) = found.bind fun c => outcome s p (c.set g) rest := by
  obtain ⟨found, hfound, hset⟩ := applyEntry_sets s.table entry.1 (s.table.resolve entry.2)
  refine ⟨found, hfound, fun p g rest => ?_⟩
  rw [outcome_eq_bind, applyOne, if_neg hkey, show (applyEntry _ _ _ g).toOption = _ from hset g,
    Option.bind_map]
  rfl

theorem outcome_cons (entry : String × Object) (s : Setting) (p : Processor) :
    ∃ (found : Option Parameter) (q : Processor), (∀ c ∈ found, c.key = entry.1) ∧
      ∀ g rest, outcome s p g (entry :: rest) = found.bind fun c => outcome s q (c.set g) rest := by
  by_cases hkey : entry.1 = "Font"
  · obtain ⟨found, hfound, hset⟩ := applyFont_sets s p (s.table.resolve entry.2)
    refine ⟨found, (applyFont s p (s.table.resolve entry.2) {}).2, hkey ▸ hfound, fun g rest => ?_⟩
    rw [outcome_eq_bind, applyOne, if_pos hkey, applyFont_processor s p _ g {},
      show (applyFont _ _ _ g).1.toOption = _ from hset g, Option.bind_map]
    rfl
  · obtain ⟨found, hfound, hset⟩ := outcome_other hkey s
    exact ⟨found, p, hfound, hset p⟩

/-- Two neighbours can be swapped. One of them is not about the font, and does the same before and
after the other. -/
theorem outcome_swap_other {x y : String × Object} (hx : x.1 ≠ "Font") (hne : x.1 ≠ y.1)
    (s : Setting) (p : Processor) (g : GraphicsState) (rest : List (String × Object)) :
    outcome s p g (x :: y :: rest) = outcome s p g (y :: x :: rest) := by
  obtain ⟨a, ha, hsetx⟩ := outcome_other hx s
  obtain ⟨b, q, hb, hsety⟩ := outcome_cons y s p
  simp only [hsetx, hsety]
  rw [Option.bind_comm]
  refine Option.bind_congr fun c hc => Option.bind_congr fun c' hc' => ?_
  have hkeys : c'.key ≠ c.key := by rwa [ha c' hc', hb c hc]
  rw [Parameter.set_comm hkeys]

theorem outcome_swap {x y : String × Object} (hne : x.1 ≠ y.1) (s : Setting) (p : Processor)
    (g : GraphicsState) (rest : List (String × Object)) :
    outcome s p g (x :: y :: rest) = outcome s p g (y :: x :: rest) := by
  by_cases hx : x.1 = "Font"
  · have hy : y.1 ≠ "Font" := fun hy => hne (hx.trans hy.symm)
    exact (outcome_swap_other hy hne.symm s p g rest).symm
  · exact outcome_swap_other hx hne s p g rest

/-- **Any order** of the entries gives the same graphics state, or none. -/
theorem outcome_perm {d d' : List (String × Object)} (h : d.Perm d') (hkeys : (d.map Prod.fst).Nodup)
    (s : Setting) (p : Processor) (g : GraphicsState) : outcome s p g d = outcome s p g d' := by
  induction h generalizing p g with
  | nil => rfl
  | cons entry _ ih =>
    obtain ⟨found, q, -, hset⟩ := outcome_cons entry s p
    rw [hset, hset]
    exact Option.bind_congr fun c _ => ih (List.nodup_cons.1 hkeys).2 q _
  | swap x y rest =>
    have hne : y.1 ≠ x.1 := by
      intro heq
      simp [heq] at hkeys
    exact outcome_swap hne s p g rest
  | trans h₁ _ ih₁ ih₂ =>
    exact (ih₁ hkeys p g).trans (ih₂ ((h₁.map Prod.fst).nodup_iff.1 hkeys) p g)

/-! ## The overprint flags -/

theorem contains_iff {d : Dict} {key : String} :
    Dict.contains d key = true ↔ key ∈ d.map Prod.fst := by
  induction d with
  | nil => simp [Dict.contains, Dict.find?]
  | cons entry rest ih =>
    by_cases hkey : key = entry.1
    · simp [Dict.contains, Dict.find?, hkey]
    · simp [Dict.contains, Dict.find?, hkey, ← ih]

theorem spreadOverprint_perm {d d' : Dict} (h : d.Perm d') (g : GraphicsState) :
    spreadOverprint d g = spreadOverprint d' g := by
  have hcontains : ∀ key, Dict.contains d key = Dict.contains d' key := fun key => by
    rw [Bool.eq_iff_iff, contains_iff, contains_iff, (h.map Prod.fst).mem_iff]
  simp only [spreadOverprint, hcontains]

theorem spreadOverprint_stroke (d : Dict) (g : GraphicsState) :
    (spreadOverprint d g).overprintStroke = g.overprintStroke := by
  unfold spreadOverprint
  split <;> rfl

theorem spreadOverprint_of_mem {d : Dict} (hfill : "op" ∈ d.map Prod.fst) (g : GraphicsState) :
    spreadOverprint d g = g := by
  simp [spreadOverprint, contains_iff.2 hfill]

theorem spreadOverprint_of_not_mem {d : Dict} (hstroke : "OP" ∈ d.map Prod.fst)
    (hfill : "op" ∉ d.map Prod.fst) (g : GraphicsState) :
    (spreadOverprint d g).overprintFill = g.overprintStroke := by
  have hnot : Dict.contains d "op" = false := by
    rw [← Bool.not_eq_true, contains_iff]
    exact hfill
  simp [spreadOverprint, contains_iff.2 hstroke, hnot]

variable {α : Type} {key : String} {g g' : GraphicsState}

/-- Entries under other keys leave a parameter alone. -/
theorem outcome_keeps {field : GraphicsState → α}
    (hother : ∀ (c : Parameter) g, c.key ≠ key → field (c.set g) = field g)
    {d : List (String × Object)} (hkey : key ∉ d.map Prod.fst)
    (h : outcome s p g d = some g') : field g' = field g := by
  induction d generalizing p g with
  | nil =>
    cases h
    rfl
  | cons entry rest ih =>
    obtain ⟨hne, hrest⟩ := not_or.1 (List.mem_cons.not.1 hkey)
    obtain ⟨found, q, hfound, hset⟩ := outcome_cons entry s p
    rw [hset] at h
    obtain ⟨c, hc, h⟩ := Option.bind_eq_some_iff.1 h
    rw [ih hrest h, hother c g (hfound c hc ▸ Ne.symm hne)]

theorem eq_bool_of_asBool {o : Object} {b : Bool} (h : view key o.asBool = .ok b) :
    o = .bool b := by
  cases o with
  | bool b' =>
    cases h
    rfl
  | _ => cases h

/-- The flag under a key is what its entry says, since the entry might as well come first. -/
theorem outcome_flag (field : GraphicsState → Bool) (flag : Bool → Parameter) {raw : Object}
    (hfont : key ≠ "Font")
    (hread : ∀ value g,
      applyEntry s.table key value g = do return (flag (← view key value.asBool)).set g)
    (hfield : ∀ b g, field ((flag b).set g) = b)
    (hother : ∀ (c : Parameter) g, c.key ≠ key → field (c.set g) = field g)
    {d : List (String × Object)} (hkeys : (d.map Prod.fst).Nodup) (hmem : (key, raw) ∈ d)
    (h : outcome s p g d = some g') : s.table.resolve raw = .bool (field g') := by
  obtain ⟨before, after, rfl⟩ := List.append_of_mem hmem
  have hfirst : (before ++ (key, raw) :: after).Perm ((key, raw) :: (before ++ after)) :=
    List.perm_middle
  have hrest : key ∉ (before ++ after).map Prod.fst :=
    (List.nodup_cons.1 ((hfirst.map Prod.fst).nodup_iff.1 hkeys)).1
  rw [outcome_perm hfirst hkeys, outcome_eq_bind, applyOne, if_neg hfont, hread] at h
  cases hvalue : view key (s.table.resolve raw).asBool with
  | error e =>
    rw [hvalue] at h
    cases h
  | ok b =>
    rw [hvalue] at h
    rw [outcome_keeps hother hrest h, hfield]
    exact eq_bool_of_asBool hvalue

theorem outcome_overprintStroke {d : Dict} {raw : Object} (hkeys : (d.map Prod.fst).Nodup)
    (hmem : ("OP", raw) ∈ d) (h : outcome s p g d = some g') :
    s.table.resolve raw = .bool g'.overprintStroke := by
  refine outcome_flag (·.overprintStroke) .overprintStroke (by decide) (fun _ _ => rfl)
    (fun _ _ => rfl) ?_ hkeys hmem h
  intro c g hc
  cases c <;> first | rfl | exact absurd rfl hc

theorem outcome_overprintFill {d : Dict} {raw : Object} (hkeys : (d.map Prod.fst).Nodup)
    (hmem : ("op", raw) ∈ d) (h : outcome s p g d = some g') :
    s.table.resolve raw = .bool g'.overprintFill := by
  refine outcome_flag (·.overprintFill) .overprintFill (by decide) (fun _ _ => rfl)
    (fun _ _ => rfl) ?_ hkeys hmem h
  intro c g hc
  cases c <;> first | rfl | exact absurd rfl hc

end StateDict

namespace Processor

open StateDict

variable {s : Setting} {p : Processor}

/-- The two ways a dictionary of graphics states can end. -/
theorem applyStateDict_cases {name : String} {d : Dict}
    (hd : (p.lookup s "ExtGState" name >>= fun found => found.object.asDict) = .ok d) :
    (∃ q e, p.applyStateDict s name = .failed q e ∧ q.gstate = p.gstate ∧
      StateDict.outcome s p p.gstate d = none) ∨
      ∃ q g, p.applyStateDict s name = .done q ∧ StateDict.outcome s p p.gstate d = some g ∧
        q.gstate = spreadOverprint d g := by
  have hsame := (applyEntries_steps (s := s) (n := 0) (b := false) d p p.gstate).2
  simp only [applyStateDict, hd, StateDict.outcome]
  cases hentries : applyEntries s p p.gstate d with
  | mk result q =>
    rw [hentries] at hsame
    cases result with
    | error e => exact .inl ⟨q, e, rfl, hsame.gstate, rfl⟩
    | ok g => exact .inr ⟨{ q with gstate := spreadOverprint d g }, g, rfl, rfl, rfl⟩

/-- The resources have no part in what the entries set. -/
theorem outcome_resources (s : Setting) (p : Processor) (chain : ResourceChain) (g : GraphicsState)
    (d : Dict) :
    StateDict.outcome s { p with resources := chain } g d = StateDict.outcome s p g d := by
  have hblind : FontBlind fun p => { p with resources := chain } :=
    ⟨fun _ => rfl, fun _ => rfl, fun _ => rfl, fun _ _ _ => rfl⟩
  have hentries := hblind.applyEntries s s.config s.cancelled p g d
  exact congrArg (fun result => result.1.toOption) hentries

/-- **The order of the entries does not matter.** Under whatever names two dictionaries with the same
entries are found, both fail and leave the graphics state as it was, or both give the same graphics
state. Its flags for overprinting are those of the entries, and one entry for strokes alone is for
fills as well. -/
theorem operate_stateDict_perm (s : Setting) (nested : NestedRunner) (p : Processor)
    (chain chain' : ResourceChain) (name name' : String) (d d' : Dict)
    (hd : (chain.lookup s.table "ExtGState" name >>= fun found => found.object.asDict) = .ok d)
    (hd' : (chain'.lookup s.table "ExtGState" name' >>= fun found => found.object.asDict) = .ok d')
    (hkeys : (d.map Prod.fst).Nodup) (hperm : d.Perm d') :
    let reply := fun (chain : ResourceChain) (name : String) =>
      ({ p with resources := chain } : Processor).operate s nested .stateDict ⟨"gs", [.name name]⟩
    (∃ q e q' e', reply chain name = .failed q e ∧ reply chain' name' = .failed q' e' ∧
      q.gstate = p.gstate ∧ q'.gstate = p.gstate) ∨
      ∃ q q', reply chain name = .done q ∧ reply chain' name' = .done q' ∧
        q'.gstate = q.gstate ∧
        (∀ raw, ("OP", raw) ∈ d → s.table.resolve raw = .bool q.gstate.overprintStroke ∧
          ("op" ∉ d.map Prod.fst → q.gstate.overprintFill = q.gstate.overprintStroke)) ∧
        ∀ raw, ("op", raw) ∈ d → s.table.resolve raw = .bool q.gstate.overprintFill := by
  intro reply
  have hsame : StateDict.outcome s p p.gstate d = StateDict.outcome s p p.gstate d' := outcome_perm hperm hkeys s p _
  have hcases := applyStateDict_cases (p := { p with resources := chain }) hd
  have hcases' := applyStateDict_cases (p := { p with resources := chain' }) hd'
  rw [outcome_resources] at hcases hcases'
  rcases hcases with ⟨q, e, hq, hgstate, hnone⟩ | ⟨q, g, hq, hsome, hgstate⟩
  · rcases hcases' with ⟨q', e', hq', hgstate', -⟩ | ⟨-, g', -, hsome', -⟩
    · exact .inl ⟨q, e, q', e', hq, hq', hgstate, hgstate'⟩
    · simp [hnone, hsome'] at hsame
  · rcases hcases' with ⟨-, -, -, -, hnone'⟩ | ⟨q', g', hq', hsome', hgstate'⟩
    · simp [hsome, hnone'] at hsame
    · have hg : g = g' := by simpa [hsome, hsome'] using hsame
      refine .inr ⟨q, q', hq, hq', ?_, fun raw hmem => ⟨?_, fun hfill => ?_⟩, fun raw hmem => ?_⟩
      · rw [hgstate', hgstate, hg, spreadOverprint_perm hperm]
      · rw [hgstate, spreadOverprint_stroke]
        exact outcome_overprintStroke hkeys hmem hsome
      · rw [hgstate, spreadOverprint_stroke]
        exact spreadOverprint_of_not_mem (List.mem_map_of_mem hmem) hfill g
      · rw [hgstate, spreadOverprint_of_mem (List.mem_map_of_mem hmem)]
        exact outcome_overprintFill hkeys hmem hsome

/-- Entries for both overprint flags, with another one between them. -/
def overprintEntries : Dict := [("op", .bool false), ("LW", .number 0), ("OP", .bool true)]

/-- Resources that have these entries under one name, and in the reverse order under another. -/
def overprintResources : ResourceChain :=
  ⟨[[("ExtGState", .dict [("G", .dict overprintEntries), ("H", .dict overprintEntries.reverse)])]]⟩

/-- The flags differ, in both orders. -/
theorem operate_stateDict_perm_reversed :
    let reply := fun name : String =>
      ({ resources := overprintResources } : Processor).operate {} (runner {} 3) .stateDict
        ⟨"gs", [.name name]⟩
    ∃ q q', reply "G" = .done q ∧ reply "H" = .done q' ∧ q'.gstate = q.gstate ∧
      q.gstate.overprintStroke = true ∧ q.gstate.overprintFill = false := by
  intro reply
  rcases operate_stateDict_perm {} (runner {} 3) {} overprintResources overprintResources "G" "H"
    overprintEntries overprintEntries.reverse rfl rfl (by decide) (List.reverse_perm _).symm with
    ⟨q, e, q', e', hq, -⟩ | ⟨q, q', hq, hq', hgstate, hstroke, hfill⟩
  · cases hq
  · refine ⟨q, q', hq, hq', hgstate, ?_, ?_⟩
    · exact (Object.bool.inj (hstroke (.bool true) (by simp [overprintEntries])).1).symm
    · exact (Object.bool.inj (hfill (.bool false) (by simp [overprintEntries]))).symm

end Processor

end ContentStream
