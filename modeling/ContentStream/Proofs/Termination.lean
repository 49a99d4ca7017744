import ContentStream.Proofs.Activation
import ContentStream.Proofs.StoppingEarly
import Mathlib.Data.Prod.Lex

/-!
# Runs come to an end

Streams may run each other in circles, and a font may draw its glyphs with itself. A run ends all the
same.

* `Activation.rank`: how many streams may still be started inside each other, and what the running one
  has still to do, in lexicographic order. What it has to do are bytes to read, then items that it has
  read, then the text that it is showing.
* `Activation.Calls`: the activations that one round leads to, be it the stream that goes on or one
  that starts inside.

**Theorem (`process_terminates`).** Each call has a lower rank than its caller, the content of a page
is evaluated by a finite course of rounds, and what that course ends with makes the outcome of the page,
unless the page breaks down on it.

A round that selects a colour space first reads its description, by a recursion of its own. That one
ends if no pattern space lies over itself.
-/

namespace ContentStream

/-! ## What is left to do -/

/-- The rounds that an item of a text takes. -/
def TextItem.size (font : Font) : TextItem → Nat
  | .shift _ => 1
  | .string bytes => (font.decode bytes).length + 1

/-- The rounds that a text takes, and the one behind it. -/
def ShownText.size (t : ShownText) : Nat :=
  t.codes.length + t.items.foldr (fun item rounds => item.size t.font.font + rounds) 0 + 1

namespace Activation

open Processor

variable {s : Setting} {a b : Activation} {nested : NestedRunner}

/-- What a stream has still to do: bytes to read first, then the items that it has read, then what is
left of the text at hand. -/
def work (a : Activation) : ℕ ×ₗ ℕ ×ₗ ℕ :=
  toLex (a.reader.unread, toLex (a.pending.length, (a.text.map ShownText.size).getD 0))

/-- How many streams may still be started inside each other, and what the running one has to do. -/
def rank (s : Setting) (a : Activation) : ℕ ×ₗ ℕ ×ₗ ℕ ×ₗ ℕ :=
  toLex (s.config.maxDepth - a.processor.depth, a.work)

theorem work_lt_of_unread (h : b.reader.unread < a.reader.unread) : b.work < a.work :=
  Prod.Lex.toLex_lt_toLex.2 (.inl h)

theorem work_lt_of_pending (hreader : b.reader = a.reader) (h : b.pending.length < a.pending.length) :
    b.work < a.work := by
  refine Prod.Lex.toLex_lt_toLex.2 (.inr ⟨by rw [hreader], ?_⟩)
  exact Prod.Lex.toLex_lt_toLex.2 (.inl h)

theorem work_lt_of_text (hreader : b.reader = a.reader) (hpending : b.pending = a.pending)
    (h : (b.text.map ShownText.size).getD 0 < (a.text.map ShownText.size).getD 0) :
    b.work < a.work := by
  refine Prod.Lex.toLex_lt_toLex.2 (.inr ⟨by rw [hreader], ?_⟩)
  exact Prod.Lex.toLex_lt_toLex.2 (.inr ⟨by rw [hpending], h⟩)

theorem work_afterPart {t t' : ShownText} (ht : a.text = some t) (h : t'.size < t.size)
    (reply : Reply) : (a.afterPart t' reply).work < a.work := by
  cases reply with
  | done p => exact work_lt_of_text rfl rfl (by simpa [afterPart, ht] using h)
  | failed p e => exact work_lt_of_text rfl rfl (by simp [afterPart, ht, ShownText.size])

theorem rank_lt_of_work (hdepth : b.processor.depth = a.processor.depth) (h : b.work < a.work) :
    b.rank s < a.rank s :=
  Prod.Lex.toLex_lt_toLex.2 (.inr ⟨by rw [hdepth], h⟩)

theorem rank_lt_of_depth (hdepth : b.processor.depth = a.processor.depth + 1)
    (h : a.processor.depth < s.config.maxDepth) : b.rank s < a.rank s := by
  apply Prod.Lex.toLex_lt_toLex.2
  left
  dsimp only
  omega

/-- A round that keeps the result and leaves less to do. Where another stream is run, that holds for
what the round goes on with afterwards. -/
def Sound (s : Setting) (a : Activation) : Next → Prop
  | .done p => p = a.result s
  | .goOn b =>
    b.processor.depth = a.processor.depth ∧ b.work < a.work ∧ b.result s = a.result s
  | .call inner resume =>
    inner.processor.depth = a.processor.depth + 1 ∧ a.processor.depth < s.config.maxDepth ∧
      (∀ q, q.depth = a.processor.depth + 1 →
        (resume q).processor.depth = a.processor.depth ∧ (resume q).work < a.work) ∧
      (resume (inner.result s)).result s = a.result s

theorem result_ofSegments (s : Setting) (segments : List (List UInt8)) (p : Processor) :
    (ofSegments segments p).result s =
      (executeItems s (runner s (s.config.maxDepth - p.depth)) (Content.items segments) []
        p).closeSections s := rfl

/-- What the runner makes of a stream that is permitted is the result of an activation. -/
theorem runner_eq_permit (s : Setting) (run : NestedRun) (p : Processor) :
    runner s (s.config.maxDepth - p.depth) run p =
      Reply.attempt p (p.permit s run) fun clip =>
        .done (p.endNested s run ((ofSegments [run.data] (p.beginNested s run clip)).result s)) := by
  cases hleft : s.config.maxDepth - p.depth with
  | zero =>
    have hfull : s.config.maxDepth < p.depth + 1 := by omega
    simp only [permit, if_pos (Or.inl hfull), Reply.attempt, runner]
  | succ n =>
    have hroom : ¬ s.config.maxDepth < p.depth + 1 := by omega
    simp only [runner, runNested, permit]
    by_cases hactive : p.isActive run.source = true
    · simp only [if_pos hactive, if_pos (Or.inr hactive), Reply.attempt]
    · rw [if_neg hactive, if_neg (not_or.2 ⟨hroom, hactive⟩)]
      cases run.clipPath with
      | error e => simp only [Reply.attempt]
      | ok clip =>
        have hinner : s.config.maxDepth - (p.beginNested s run clip).depth = n := by
          rw [depth_beginNested]
          omega
        simp only [Reply.attempt, result_ofSegments, hinner, execute_enter, endNested, Content.itemsOf]

theorem doWith_sound {asked : Option (NestedRun × Processor)} {next : NestedRunner → Activation}
    (hnone : asked = none → ∀ nested, next nested = next idle)
    (hsome : ∀ run q, asked = some (run, q) → q.depth = a.processor.depth ∧
      ∀ nested, next nested = next fun _ _ => nested run q)
    (hkeeps : ∀ nested, KeepsDepth a.processor.depth nested →
      (next nested).processor.depth = a.processor.depth)
    (hwork : ∀ nested, (next nested).work < a.work)
    (hresult : ∀ nested, (next nested).resultWith s nested = a.resultWith s nested) :
    Sound s a (doWith s asked next) := by
  -- Whatever the answer is, as long as it is the runner's, the result stays the same.
  have hsame : ∀ nested, (next nested).processor.depth = a.processor.depth →
      next nested = next (runner s (s.config.maxDepth - a.processor.depth)) →
      (next nested).result s = a.result s := by
    intro nested hdepth hnext
    rw [result, hdepth, hnext, hresult, ← result]
  unfold doWith
  split
  · have hdepth := hkeeps idle fun _ _ hq => hq
    exact ⟨hdepth, hwork idle, hsame idle hdepth (hnone rfl _).symm⟩
  · rename_i run q
    obtain ⟨hq, hask⟩ := hsome run q rfl
    have hrun := runner_eq_permit s run q
    rw [hq] at hrun
    have hanswer := hask (runner s (s.config.maxDepth - a.processor.depth))
    split
    · rename_i e hpermit
      rw [hpermit, Reply.attempt] at hrun
      have hdepth := hkeeps (fun _ _ => .failed q e) fun _ _ _ => hq
      exact ⟨hdepth, hwork _, hsame _ hdepth (by rw [hanswer, hrun])⟩
    · rename_i clip hpermit
      rw [hpermit, Reply.attempt] at hrun
      have hinner : (q.beginNested s run clip).depth = a.processor.depth + 1 := by
        rw [depth_beginNested, hq]
      have hback : ∀ inner : Processor, inner.depth = a.processor.depth + 1 →
          (next fun _ _ => .done (q.endNested s run inner)).processor.depth = a.processor.depth := by
        intro inner hdepth
        apply hkeeps
        intro _ _ _
        rw [Reply.processor, depth_endNested, hdepth, Nat.add_sub_cancel]
      refine ⟨hinner, ?_, fun inner hdepth => ⟨hback inner hdepth, hwork _⟩, ?_⟩
      · rw [← hq]
        exact depth_lt_of_permit hpermit
      · refine hsame _ (hback _ ?_) (by rw [hanswer, hrun])
        exact (depth_eq (ground_result ..)).trans hinner

theorem goOn_sound (hdepth : b.processor.depth = a.processor.depth) (hwork : b.work < a.work)
    (hresult : ∀ nested, b.resultWith s nested = a.resultWith s nested) : Sound s a (.goOn b) := by
  refine ⟨hdepth, hwork, ?_⟩
  rw [result, hdepth, hresult, ← result]

theorem showNext_sound {t : ShownText} (ht : a.text = some t) : Sound s a (a.showNext s t) := by
  have hresult : ∀ nested, a.resultWith s nested =
      a.finish s nested (settle t.pos t.word (t.rest s nested a.processor)) := by
    intro nested
    simp only [resultWith, shown, ht]
  obtain ⟨word, pos, operator, font, codes, items⟩ := t
  cases codes with
  | cons c codes =>
    simp only [showNext]
    apply doWith_sound
    · intro hnone nested
      rw [showGlyph_of_not_asked hnone nested]
    · intro run q hsome
      obtain ⟨hdepth, hask⟩ := showGlyph_of_asked hsome
      exact ⟨hdepth, fun nested => congrArg (a.afterPart _) (hask nested operator)⟩
    · intro nested hkeeps
      rw [depth_afterPart]
      exact depth_showGlyph hkeeps operator font c
    · intro nested
      exact work_afterPart ht (by simp [ShownText.size]) _
    · intro nested
      rw [resultWith_afterPart, hresult]
      simp only [ShownText.rest, showCodes, Reply.andThen_assoc]
      rfl
  | nil =>
    cases items with
    | nil =>
      refine goOn_sound rfl (work_lt_of_text rfl rfl ?_) fun nested => (hresult nested).symm
      simp [ht, ShownText.size]
    | cons item items =>
      cases item with
      | string bytes =>
        refine goOn_sound rfl (work_lt_of_text rfl rfl ?_) fun nested => (hresult nested).symm
        simp [ht, ShownText.size, TextItem.size]
      | shift amount =>
        refine goOn_sound ?_ (work_afterPart ht ?_ _) fun nested => ?_
        · rw [depth_afterPart]
          exact depth_adjust _ _
        · simp [ShownText.size, TextItem.size]
        · rw [resultWith_afterPart, hresult]
          rfl

theorem resultWith_startText (htext : a.text = none) (word : String) (p : Processor)
    (text : Showing) :
    (a.startText word p text).resultWith s nested =
      a.finish s nested (settle p.pos word (p.showText s nested text)) := by
  unfold startText showText
  cases p.gstate.text.font with
  | none =>
    simp only [resultWith, shown, htext]
    rfl
  | some font =>
    dsimp only
    rw [resultWith_afterPart]
    rfl

theorem startText_same (a : Activation) (word : String) (p : Processor) (text : Showing) :
    (a.startText word p text).reader = a.reader ∧
      (a.startText word p text).pending = a.pending := by
  unfold startText
  split
  · exact ⟨rfl, rfl⟩
  · cases p.startLine text with
    | done q => exact ⟨rfl, rfl⟩
    | failed q e => exact ⟨rfl, rfl⟩

theorem depth_startText (a : Activation) (word : String) (p : Processor) (text : Showing) :
    (a.startText word p text).processor.depth = p.depth := by
  have hspaced : (p.setSpacing text.spacing).depth = p.depth := by
    cases text.spacing with
    | none => rfl
    | some spaces => rfl
  unfold startText
  split
  · rfl
  · rw [depth_afterPart, startLine]
    split
    · rw [depth_adjust, hspaced]
    · exact hspaced

/-- Handling an operator, after which the items behind it are left. -/
theorem takeOperator_sound {a' : Activation} {word : String} {args : List Object}
    (hdepth : a'.processor.depth = a.processor.depth) (htext : a'.text = none)
    (hreader : a'.reader = a.reader) (hpending : a'.pending.length < a.pending.length)
    (hresult : ∀ nested, a.resultWith s nested =
      a'.finish s nested (a'.processor.dispatch s nested word args)) :
    Sound s a (a'.takeOperator s word args) := by
  have hplain : ∀ nested p, { a' with processor := p }.resultWith s nested = a'.finish s nested p := by
    intro nested p
    simp only [resultWith, shown, htext]
    rfl
  unfold takeOperator
  by_cases hexhausted : a'.processor.exhausted s = true
  · rw [if_pos hexhausted]
    refine goOn_sound ?_ (work_lt_of_pending hreader hpending) fun nested => ?_
    · have hsteps := dispatch_steps (follows_idle s) a'.processor word args
      exact hsteps.keeps_depth.trans hdepth
    · rw [hplain, hresult]
      simp only [dispatch, if_pos hexhausted]
  · rw [if_neg hexhausted]
    simp only [dispatch, if_neg hexhausted] at hresult
    dsimp only
    split
    · rename_i text hinstruction
      refine goOn_sound ?_ ?_ fun nested => ?_
      · rw [depth_startText]
        exact hdepth
      · obtain ⟨hsameReader, hsamePending⟩ := startText_same a' word _ text
        exact work_lt_of_pending (hsameReader.trans hreader) (hsamePending ▸ hpending)
      · rw [resultWith_startText htext, hresult, executeWord_of_instruction hinstruction]
        rfl
    · rename_i hshow
      apply doWith_sound
      · intro hnone nested
        rw [executeWord_of_not_asked hshow hnone]
      · intro run q hsome
        obtain ⟨rfl, hask⟩ := executeWord_of_asked hsome
        exact ⟨hdepth, fun nested => by rw [hask nested, hask fun _ _ => nested run _]⟩
      · intro nested hkeeps
        rw [← hdepth] at hkeeps ⊢
        exact depth_executeWord hkeeps hshow
      · intro nested
        exact work_lt_of_pending hreader hpending
      · intro nested
        rw [hplain, hresult]

theorem takeItem_sound {pos : Nat} {item : Except Error Item} {rest : List ItemAt}
    (ht : a.text = none) (hp : a.pending = (pos, item) :: rest) :
    Sound s a ({ a with pending := rest }.takeItem s pos item) := by
  have hresult : ∀ nested, a.resultWith s nested =
      (executeItems s nested ((pos, item) :: (rest ++ a.reader.items)) a.operands
        a.processor).closeSections s := by
    intro nested
    simp only [resultWith, finish, shown, ht, hp, List.cons_append]
  have hpoll : (a.processor.poll s).depth = a.processor.depth :=
    depth_eq (Step.ground (.look a.processor)).1
  have hshorter : rest.length < a.pending.length := by simp [hp]
  simp only [takeItem]
  by_cases hbreaks : ItemAt.breaksDown (pos, item) = true
  · rw [if_pos hbreaks]
    simp only [Sound, result, hresult, executeItems, if_pos hbreaks]
  rw [if_neg hbreaks]
  by_cases habort : (a.processor.poll s).abort.isSome = true
  · rw [if_pos habort]
    simp only [Sound, result, hresult, executeItems, if_neg hbreaks, if_pos habort]
  · rw [if_neg habort]
    simp only [executeItems, if_neg hbreaks, if_neg habort] at hresult
    have hwork : ∀ operands p, work ⟨a.reader, rest, operands, a.text, p⟩ < a.work := fun _ _ =>
      work_lt_of_pending rfl hshorter
    have hplain : ∀ nested operands p, resultWith s nested ⟨a.reader, rest, operands, a.text, p⟩ =
        (executeItems s nested (rest ++ a.reader.items) operands p).closeSections s := by
      intro nested operands p
      simp only [resultWith, finish, shown, ht]
    cases item with
    | ok item =>
      cases item with
      | operand o =>
        refine goOn_sound hpoll (hwork _ _) fun nested => ?_
        rw [hplain, hresult]
      | operator word =>
        exact takeOperator_sound hpoll ht rfl hshorter hresult
      | image image =>
        refine goOn_sound ?_ (hwork _ _) fun nested => ?_
        · exact (dispatchImage_steps (follows_idle s) _ image _).keeps_depth.trans hpoll
        · rw [hplain, hresult]
          simp only [dispatchImage_eq_idle s nested]
    | error e =>
      cases e with
      | truncated => simp only [Sound, result, hresult]
      | _ =>
        refine goOn_sound hpoll (hwork _ _) fun nested => ?_
        rw [hplain, hresult]

/-- **One round.** Each round keeps the result and leaves less to do. -/
theorem next_sound (s : Setting) (a : Activation) : Sound s a (a.next s) := by
  unfold next
  split
  · rename_i t ht
    exact showNext_sound ht
  · rename_i pos item rest ht hp
    exact takeItem_sound ht hp
  · rename_i c b ht hp hr
    obtain ⟨hitems, hunread⟩ := c.readOn_spec b
    refine ⟨rfl, work_lt_of_unread ?_, ?_⟩
    · rw [hr]
      exact hunread
    · simp [result, resultWith, finish, shown, ht, hp, hr, Reader.items, hitems]
  · rename_i ht hp hr
    simp [Sound, result, resultWith, finish, shown, ht, hp, hr, Reader.items, executeItems]

theorem sound_of_next {next : Next} (h : a.next s = next) : Sound s a next := h ▸ next_sound s a

/-! ## Runs -/

/-- The activations that one round of an activation leads to. -/
inductive Calls (s : Setting) (a : Activation) : Activation → Prop
  | goOn {b : Activation} : a.next s = .goOn b → Calls s a b
  | call {inner : Activation} {resume : Processor → Activation} :
      a.next s = .call inner resume → Calls s a inner
  | resume {inner : Activation} {resume : Processor → Activation} {q : Processor} :
      a.next s = .call inner resume → inner.Evaluates s q → Calls s a (resume q)

/-- Whatever an activation ends with is its result. -/
theorem Evaluates.eq_result {q : Processor} (h : a.Evaluates s q) : q = a.result s := by
  induction h with
  | done hnext => exact sound_of_next hnext
  | goOn hnext _ _ ih =>
    obtain ⟨-, -, hresult⟩ := sound_of_next hnext
    exact ih.trans hresult
  | call hnext _ _ ihInner ihRest =>
    obtain ⟨-, -, -, hresult⟩ := sound_of_next hnext
    subst ihInner
    exact ihRest.trans hresult

/-- The stream that was run comes back to the depth of the one that ran it, which has less to do. -/
theorem rank_resume_lt {inner : Activation} {resume : Processor → Activation}
    (h : a.next s = .call inner resume) : (resume (inner.result s)).rank s < a.rank s := by
  obtain ⟨hinner, -, hback, -⟩ := sound_of_next h
  obtain ⟨hdepth, hwork⟩ := hback _ ((depth_eq (ground_result ..)).trans hinner)
  exact rank_lt_of_work hdepth hwork

theorem Calls.rank_lt (h : Calls s a b) : b.rank s < a.rank s := by
  cases h with
  | goOn hnext =>
    obtain ⟨hdepth, hwork, -⟩ := sound_of_next hnext
    exact rank_lt_of_work hdepth hwork
  | call hnext =>
    obtain ⟨hinner, hroom, -, -⟩ := sound_of_next hnext
    exact rank_lt_of_depth hinner hroom
  | resume hnext hq =>
    obtain rfl := hq.eq_result
    exact rank_resume_lt hnext

/-- **Induction over a run.** What holds at a last round, and goes back over a round from what comes
behind it, holds of every activation and its result. The induction is on the rank. -/
theorem result_induction {motive : Activation → Processor → Prop}
    (hdone : ∀ {a p}, a.next s = .done p → motive a p)
    (hgoOn : ∀ {a b q}, a.next s = .goOn b → motive b q → motive a q)
    (hcall : ∀ {a inner resume q}, a.next s = .call inner resume → motive inner (inner.result s) →
      motive (resume (inner.result s)) q → motive a q) (a : Activation) : motive a (a.result s) := by
  induction hrank : a.rank s using WellFoundedLT.induction generalizing a with
  | ind r ih =>
    subst hrank
    cases hnext : a.next s with
    | done p =>
      obtain rfl : p = a.result s := sound_of_next hnext
      exact hdone hnext
    | goOn b =>
      obtain ⟨-, -, hresult⟩ := sound_of_next hnext
      have hrest := ih _ (Calls.goOn hnext).rank_lt b rfl
      exact hgoOn hnext (hresult ▸ hrest)
    | call inner resume =>
      obtain ⟨-, -, -, hresult⟩ := sound_of_next hnext
      have hinner := ih _ (Calls.call hnext).rank_lt inner rfl
      have hrest := ih _ (rank_resume_lt hnext) _ rfl
      exact hcall hnext hinner (hresult ▸ hrest)

/-- **Every activation comes to its end**, if every description of a colour space can be read. -/
theorem evaluates_result (hreads : ∀ o, ColorSpace.Reads s.table o (ColorSpace.read s.table o))
    (a : Activation) : a.Evaluates s (a.result s) :=
  result_induction .done (fun hnext => .goOn hnext fun o _ => hreads o) .call a

end Activation

namespace Processor

/-- The content of a page is executed as an activation. -/
theorem execute_beginPage (s : Setting) (cancelIn : Option Nat) (segments : List (List UInt8))
    (resources : Dict) :
    (beginPage s cancelIn resources).execute s (runner s s.config.maxDepth) (Content.items segments) =
      (Activation.ofSegments segments (beginPage s cancelIn resources)).result s := by
  let ran := (Activation.ofSegments segments (beginPage s cancelIn resources)).result s
  have hfloor : ran.sectionFloor = 0 := sectionFloor_eq (Activation.ground_result s _)
  show ({ ran with sectionFloor := 0 } : Processor) = ran
  rw [← hfloor]

/-- **Every run ends.** Let no pattern space lie over itself. Then the recursion over the descriptions
of colour spaces ends on each of them, with what is read of it. The page is evaluated by a finite
course of rounds, in which each round leads to activations of lower rank only. There is one thing that
it can end with, and that makes the outcome of the page, or shows that the page breaks down. -/
theorem process_terminates (s : Setting) (cancelIn : Option Nat) (segments : List (List UInt8))
    (resources : Dict) (hpatterns : ∀ o, ¬ Relation.TransGen (ColorSpace.LiesOver s.table) o o) :
    (∀ o r, ColorSpace.Reads s.table o r ↔ r = ColorSpace.read s.table o) ∧
      (∀ a b, Activation.Calls s a b → b.rank s < a.rank s) ∧
      ∃ ran, (∀ q, (Activation.ofSegments segments (beginPage s cancelIn resources)).Evaluates s q ↔
          q = ran) ∧
        (start s cancelIn).process s segments resources = .ok (ran.outcome, ran.ended) := by
  have hreads := ColorSpace.reads_iff hpatterns
  refine ⟨hreads, fun a b h => h.rank_lt, _, fun q => ⟨fun h => h.eq_result, ?_⟩, ?_⟩
  · rintro rfl
    exact Activation.evaluates_result (fun o => (hreads o _).2 rfl) _
  · rw [process_start, execute_beginPage]

/-- Resources in which `F` is the first object of the document. -/
def firstObject : Dict := [("XObject", .dict [("F", .ref ⟨1, 0⟩)])]

/-- A document whose first object is a form that consists of `/F Do`, and finds itself under `F`. -/
def formInItself : ObjectTable :=
  [(⟨1, 0⟩, .stream [("Subtype", .name "Form"), ("Resources", .dict firstObject)]
    [47, 70, 32, 68, 111] 0)]

/-- A page that runs that form ends, with a report of the form that was not run again. -/
theorem process_terminates_formInItself :
    let s : Setting := { table := formInItself }
    let page := Activation.ofSegments [[47, 70, 32, 68, 111]] (beginPage s none firstObject)
    ∃ ran, (∀ q, page.Evaluates s q ↔ q = ran) ∧ ran.outcome.diagnostics.length = 1 := by
  intro s page
  have hpatterns : ∀ o, ¬ Relation.TransGen (ColorSpace.LiesOver s.table) o o :=
    ColorSpace.not_liesOver_itself (by simp [s, formInItself])
  obtain ⟨-, -, ran, hran, hprocess⟩ :=
    process_terminates s none [[47, 70, 32, 68, 111]] firstObject hpatterns
  refine ⟨ran, hran, ?_⟩
  rw [process_start, Except.ok.injEq, Prod.mk.injEq] at hprocess
  rw [← hprocess.1]
  decide +kernel

end Processor

end ContentStream
