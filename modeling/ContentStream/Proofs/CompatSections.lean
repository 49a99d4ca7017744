import ContentStream.Proofs.Bookkeeping
import ContentStream.Proofs.SaveRestore

/-!
# Compatibility sections

Between `BX` and `EX`, where they stand without operands, words that stand for no operator are passed
over in silence. Sections nest, and an `EX` too many does nothing: in front of each item of a stream
a number of sections is open (`openCompat`), which the items in front of it determine.

**Theorem (`compat_silences_unknown`).** In any stream, whatever stands between, a word that stands
for no operator is reported once if no section is open, and not at all otherwise. Apart from this
report it is only counted. What is wrong with an operator is reported in either case.

The invariant is `compatDepth_upTo`: the processor counts exactly the sections of its own stream. It
rests on one equation (`runner_inCompat`, `executeWord_inCompat`). A stream inside another, and every
operator but those two, does the same whatever the count is, and leaves it. For the count itself this
says that it stays.
-/

namespace ContentStream

/-! ## The sections of a stream -/

/-- The number of compatibility sections that are open behind the first `k` items. -/
def openCompat (items : List ItemAt) : (k : Nat) → Nat
  | 0 => 0
  | k + 1 =>
    match callAt items k with
    | some ("BX", []) => openCompat items k + 1
    | some ("EX", []) => openCompat items k - 1
    | _ => openCompat items k

theorem openCompat_of_begin {items : List ItemAt} {k : Nat} (h : callAt items k = some ("BX", [])) :
    openCompat items (k + 1) = openCompat items k + 1 := by
  simp only [openCompat, h]

theorem openCompat_of_end {items : List ItemAt} {k : Nat} (h : callAt items k = some ("EX", [])) :
    openCompat items (k + 1) = openCompat items k - 1 := by
  simp only [openCompat, h]

theorem openCompat_of_other {items : List ItemAt} {k : Nat} (hbegin : callAt items k ≠ some ("BX", []))
    (hend : callAt items k ≠ some ("EX", [])) : openCompat items (k + 1) = openCompat items k := by
  rw [openCompat]
  split
  · contradiction
  · contradiction
  · rfl

namespace Operator

theorem table_beginCompatibility :
    ∀ entry ∈ table, entry.2.1 = beginCompatibility →
      entry = ("BX", beginCompatibility, .exact 0) := by
  decide

theorem table_endCompatibility :
    ∀ entry ∈ table, entry.2.1 = endCompatibility → entry = ("EX", endCompatibility, .exact 0) := by
  decide

/-- Only the operators for it begin and end compatibility sections. -/
theorem eq_begin_or_endCompatibility {op : Operator} {args : Operands} {i : Instruction}
    (h : op.read args = .ok i) (hi : i.countsCompat = true) :
    op = beginCompatibility ∨ op = endCompatibility := by
  have hop := mem_operators_of_read h
  cases i with
  | beginCompat => exact .inl (List.mem_singleton.1 hop)
  | endCompat => exact .inr (List.mem_singleton.1 hop)
  | _ => cases hi

/-- An operator that is called in another way than `BX` and `EX` without operands counts no
section. -/
theorem countsCompat_eq_false {word : String} {args : List Object} {op : Operator} {arity : Arity}
    (hfind : find? word = some (op, arity)) (harity : arity.accepts args.length = true)
    (hbegin : (word, args) ≠ ("BX", [])) (hend : (word, args) ≠ ("EX", [])) {i : Instruction}
    (hread : op.read ⟨word, args⟩ = .ok i) : i.countsCompat = false := by
  refine Bool.eq_false_iff.2 fun hcounts => ?_
  rcases eq_begin_or_endCompatibility hread hcounts with rfl | rfl
  · exact hbegin (call_of_only table_beginCompatibility hfind harity)
  · exact hend (call_of_only table_endCompatibility hfind harity)

end Operator

/-- Replaces the count of open compatibility sections, and nothing else. -/
def Recast.toCompat (j : Nat) : Recast where
  log told := told
  executed k := k
  cancelIn := id
  compat _ := j
  log_cons _ _ := rfl
  executed_succ _ := rfl
  cancelIn_pred _ := rfl

namespace Processor

variable {s : Setting} {n : Nat} {p : Processor}

/-! ## Whatever the count is -/

/-- The processor with `j` compatibility sections open. -/
def inCompat (j : Nat) (p : Processor) : Processor := { p with compatDepth := j }

theorem inCompat_self (p : Processor) : p.inCompat p.compatDepth = p := rfl

theorem compatDepth_of_eq_inCompat {j : Nat} (h : p = p.inCompat j) : p.compatDepth = j := by
  rw [h]
  rfl

/-- A stream inside another does the same whatever the count of the stream around is, and leaves
it. -/
theorem runner_inCompat (s : Setting) (n : Nat) (run : NestedRun) (j : Nat) (p : Processor) :
    runner s n run (p.inCompat j) = (runner s n run p).map (inCompat j) :=
  runner_recast (f := .toCompat j) (.inr fun _ => rfl) (fun _ => rfl) n run p

theorem runner_compatDepth (s : Setting) (n : Nat) (run : NestedRun) (p : Processor) :
    (runner s n run p).processor.compatDepth = p.compatDepth := by
  have hsame := congrArg Reply.processor (runner_inCompat s n run p.compatDepth p)
  rw [Reply.processor_map, inCompat_self] at hsame
  exact compatDepth_of_eq_inCompat hsame

section Words

variable {word : String} {args : List Object} (hbegin : (word, args) ≠ ("BX", []))
  (hend : (word, args) ≠ ("EX", []))
include hbegin hend

/-- So does every operator but those that begin and end the sections. -/
theorem executeWord_inCompat {found : Operator × Arity} (hfind : Operator.find? word = some found)
    (j : Nat) (p : Processor) :
    (p.inCompat j).executeWord s (runner s n) word args =
      (p.executeWord s (runner s n) word args).inCompat j := by
  obtain ⟨op, arity⟩ := found
  have hn : Recast.Commutes (.toCompat j) (runner s n) := fun run q => runner_inCompat s n run j q
  unfold executeWord
  rw [hfind]
  dsimp only
  split
  · rename_i harity
    have hoperate := operate_recast (s := s) hn (.inl fun i hread =>
      Operator.countsCompat_eq_false hfind harity hbegin hend hread) p
    have hsettle := congrArg (settle p.pos word) hoperate
    rw [settle_recast] at hsettle
    exact hsettle
  · rfl

theorem executeWord_compatDepth (p : Processor) :
    (p.executeWord s (runner s n) word args).compatDepth = p.compatDepth := by
  cases hfind : Operator.find? word with
  | none =>
    unfold executeWord
    rw [hfind]
    dsimp only
    split <;> rfl
  | some found =>
    have hsame := executeWord_inCompat (s := s) (n := n) hbegin hend hfind p.compatDepth p
    rw [inCompat_self] at hsame
    exact compatDepth_of_eq_inCompat hsame

end Words

theorem executeWord_begin (nested : NestedRunner) (p : Processor) :
    (p.executeWord s nested "BX" []).compatDepth = p.compatDepth + 1 := rfl

theorem executeWord_end (nested : NestedRunner) (p : Processor) :
    (p.executeWord s nested "EX" []).compatDepth = p.compatDepth - 1 := rfl

/-! ## The count along a stream -/

/-- The processors with which streams begin: that of a page, and those of the streams inside. -/
inductive Begins (s : Setting) : Processor → Prop
  | page (cancelIn : Option Nat) (resources : Dict) :
      Begins s { start s cancelIn with stage := .running, resources := ⟨[resources]⟩ }
  | nested (outer : Processor) (run : NestedRun) (clip : Option Path) :
      Begins s (outer.beginNested s run clip)

theorem Begins.compatDepth (h : Begins s p) : p.compatDepth = 0 := by
  cases h with
  | page => rfl
  | nested outer run clip =>
    show (outer.enter s run clip).compatDepth = 0
    unfold enter
    split
    · unfold enterForm emit
      split <;> split <;> rfl
    · rfl

section Stream

variable {items : List ItemAt} {k : Nat}

theorem isAside_compatDepth : IsAside compatDepth := fun _ _ _ _ _ _ => rfl

/-- An item that is no `BX` and no `EX` leaves the count alone. -/
theorem executeItems_compatDepth (s : Setting) (n : Nat) (p : Processor) {item : ItemAt}
    {operands : List Object} (hbegin : item.call? operands ≠ some ("BX", []))
    (hend : item.call? operands ≠ some ("EX", [])) :
    (executeItems s (runner s n) [item] operands p).compatDepth = p.compatDepth := by
  refine isAside_compatDepth.executeItems ?_ ?_ p
  · intro word args hcall q
    rw [hcall] at hbegin hend
    exact executeWord_compatDepth (fun h => hbegin (congrArg some h)) (fun h => hend (congrArg some h)) q
  · exact fun args q => executeWord_compatDepth (by simp) (by simp) q

theorem upTo_compatDepth (hgo : (p.upTo s (runner s n) items k).abort = none)
    (hbegin : callAt items k ≠ some ("BX", [])) (hend : callAt items k ≠ some ("EX", [])) :
    (p.upTo s (runner s n) items (k + 1)).compatDepth =
      (p.upTo s (runner s n) items k).compatDepth := by
  cases hitem : items[k]? with
  | none => rw [upTo_succ_of_none hitem]
  | some item =>
    rw [upTo_succ hitem hgo]
    rw [callAt, hitem] at hbegin hend
    exact executeItems_compatDepth s n _ hbegin hend

theorem arrive_compatDepth (s : Setting) (p : Processor) (pos : Nat) :
    (p.arrive s pos).compatDepth = p.compatDepth :=
  isAside_compatDepth.poll p

/-- **The count.** As long as the run goes on, it counts the open sections of the stream. -/
theorem compatDepth_upTo (hstart : p.compatDepth = 0)
    (h : (p.upTo s (runner s n) items k).abort = none) :
    (p.upTo s (runner s n) items k).compatDepth = openCompat items k := by
  induction k with
  | zero => exact hstart
  | succ k ih =>
    have hnow := upTo_abort_of_le (Nat.le_succ k) h
    specialize ih hnow
    by_cases hbegin : callAt items k = some ("BX", [])
    · obtain ⟨pos, -, heq⟩ := upTo_call hbegin (upTo_goesOn hbegin h)
      rw [openCompat_of_begin hbegin, heq, executeWord_begin, arrive_compatDepth, ih]
    · by_cases hend : callAt items k = some ("EX", [])
      · obtain ⟨pos, -, heq⟩ := upTo_call hend (upTo_goesOn hend h)
        rw [openCompat_of_end hend, heq, executeWord_end, arrive_compatDepth, ih]
      · rw [openCompat_of_other hbegin hend, upTo_compatDepth hnow hbegin hend, ih]

/-! ## What is reported -/

theorem arrive_of_goesOn (h : p.GoesOn s) (pos : Nat) :
    p.arrive s pos =
      { p with looks := p.looks + 1, pos := pos, executed := p.executed + 1 } := by
  have habort := abort_of_poll h.1
  have hnow : ¬ p.abort.isSome = true := by simp [habort]
  have hpoll := h.1
  unfold poll at hpoll
  rw [if_neg hnow] at hpoll
  unfold arrive poll
  rw [if_neg hnow]
  dsimp only at hpoll ⊢
  rw [hpoll, habort]

theorem executeWord_unknown {word : String} (hfind : Operator.find? word = none)
    (nested : NestedRunner) (args : List Object) (p : Processor) :
    p.executeWord s nested word args =
      if p.compatDepth = 0 then p.report (some word) (.unknownOperator word) else p := by
  unfold executeWord
  rw [hfind]
  by_cases hdepth : p.compatDepth = 0
  · exact (if_neg (by omega)).trans (if_pos hdepth).symm
  · exact (if_pos (Nat.pos_of_ne_zero hdepth)).trans (if_neg hdepth).symm

/-- **Compatibility sections.** In a stream, let an operator be called behind the first `k` items,
and let the run get to it. The processor then counts the open sections of this stream.

* A word that stands for no operator leaves the processor as it was, apart from the place, the counts
  of operators and of looks for a cancellation, and one report if no section is open.
* An operator with a wrong number of operands is reported, and one that fails is, too, in sections
  and outside. All that an operator does, apart from `BX` and `EX` themselves, is the same whatever the
  count is.
* So is all that a stream does which runs inside another, and it leaves the count as it was. -/
theorem compat_silences_unknown (s : Setting) (n : Nat) (items : List ItemAt) (p : Processor) (k : Nat)
    (word : String) (args : List Object) (hstart : Begins s p)
    (hcall : callAt items k = some (word, args)) (hgo : (p.upTo s (runner s n) items k).GoesOn s) :
    let before := p.upTo s (runner s n) items k
    let behind := p.upTo s (runner s n) items (k + 1)
    before.compatDepth = openCompat items k ∧
      (∃ pos, items[k]? = some (pos, .ok (.operator word)) ∧
        (Operator.find? word = none →
          behind =
            { before with
              looks := before.looks + 1
              pos := pos
              executed := before.executed + 1
              log :=
                if openCompat items k = 0 then
                  .diagnostic ⟨pos, before.depth, some word, .unknownOperator word⟩ :: before.log
                else before.log }) ∧
        ∀ op arity, Operator.find? word = some (op, arity) →
          (arity.accepts args.length = false →
            behind = (before.arrive s pos).report (some word) (.arity word arity args.length)) ∧
          (∀ q e, arity.accepts args.length = true →
            (before.arrive s pos).operate s (runner s n) op ⟨word, args⟩ = .failed q e →
            behind = { q with pos := pos }.report (some word) e) ∧
          ((word, args) ≠ ("BX", []) → (word, args) ≠ ("EX", []) →
            ∀ j, ((before.arrive s pos).inCompat j).executeWord s (runner s n) word args =
              behind.inCompat j)) ∧
      ∀ run q, (runner s n run q).processor.compatDepth = q.compatDepth ∧
        ∀ j, runner s n run (q.inCompat j) = (runner s n run q).map (inCompat j) := by
  intro before behind
  have hdepth : before.compatDepth = openCompat items k :=
    compatDepth_upTo hstart.compatDepth (abort_of_poll hgo.1)
  obtain ⟨pos, hitem, (hbehind : behind = (before.arrive s pos).executeWord s (runner s n) word args)⟩ :=
    upTo_call hcall hgo
  refine ⟨hdepth, ⟨pos, hitem, fun hfind => ?_, fun op arity hfind => ?_⟩, fun run q =>
    ⟨runner_compatDepth s n run q, fun j => runner_inCompat s n run j q⟩⟩
  · rw [hbehind, executeWord_unknown hfind, arrive_compatDepth, arrive_of_goesOn hgo, hdepth]
    split <;> rfl
  refine ⟨fun harity => ?_, fun q e harity hfailed => ?_, fun hbegin hend j => ?_⟩
  · rw [hbehind, executeWord, hfind]
    exact if_neg (Bool.eq_false_iff.1 harity)
  · rw [hbehind, executeWord, hfind]
    refine (if_pos harity).trans ?_
    rw [hfailed]
    rfl
  · rw [executeWord_inCompat hbegin hend hfind, hbehind]

/-- A stream with one section, one `EX` too many, and a word without meaning inside and behind. -/
def strayWords : List ItemAt :=
  [(0, .ok (.operator "BX")), (3, .ok (.operator "foo")), (7, .ok (.operator "EX")),
    (10, .ok (.operator "EX")), (13, .ok (.operator "foo"))]

/-- On a page the first stray word of that stream is passed over. In a glyph on the page the second one
is reported, although the page has two sections open around it. -/
theorem compat_silences_unknown_strayWords :
    let run : NestedRun := { source := .glyph 0 0, data := [], ctm := .identity }
    let page : Processor := { start {} none with stage := .running, resources := ⟨[[]]⟩ }
    let glyph := (page.inCompat 2).beginNested {} run none
    let onPage := page.upTo {} (runner {} 3) strayWords
    let inGlyph := glyph.upTo {} (runner {} 3) strayWords
    (openCompat strayWords 1 = 1 ∧ (onPage 1).compatDepth = 1 ∧ (onPage 2).log = (onPage 1).log) ∧
      openCompat strayWords 4 = 0 ∧ (inGlyph 4).compatDepth = 0 ∧
        (inGlyph 5).log =
          .diagnostic ⟨13, (inGlyph 4).depth, some "foo", .unknownOperator "foo"⟩ ::
            (inGlyph 4).log := by
  intro run page glyph onPage inGlyph
  obtain ⟨hone, ⟨pos, -, hpassed, -⟩, -⟩ :=
    compat_silences_unknown {} 3 strayWords page 1 "foo" [] (.page none []) rfl ⟨rfl, rfl⟩
  obtain ⟨hnone, ⟨pos', hitem, hreported, -⟩, -⟩ :=
    compat_silences_unknown {} 3 strayWords glyph 4 "foo" [] (.nested _ run none) rfl ⟨rfl, rfl⟩
  have hpos : pos' = 13 := (Prod.mk.inj (Option.some.inj hitem)).1.symm
  subst hpos
  have hquiet := congrArg log (hpassed (by decide))
  have htold := congrArg log (hreported (by decide))
  exact ⟨⟨rfl, hone, hquiet⟩, rfl, hnone, htold⟩

end Stream

end Processor

end ContentStream
