import ContentStream.Proofs.RoundEffects
import ContentStream.Proofs.Termination

/-!
# The activations of a run

A run is a course of rounds, in the stream of the page and in the streams that run inside it. This
module says what the processor can have come to whenever a round begins, and finds the round that told
of an event.

* `Activation.Visits`: the activations that a run comes to.
* `Activation.Tells`: a round whose first event comes right behind given ones.
* `next_steps`: what one round does. The stream takes steps of its own, and starts at most one other.

**Theorem (`Visits.moment`).** Whenever a round begins, the processor is at a moment of the run. So what
holds at every moment holds there (`process_consistent`).

**Theorem (`result_accounts`).** If no round tells of something of a certain kind other than first, and
there only under a law, then every such event of a run goes back to a round for which the law holds.
-/

namespace ContentStream

namespace Processor

variable {s : Setting} {n m : Nat} {b : Bool} {p q : Processor}

theorem Steps.mono (h : Steps s n b p q) (hnm : n ≤ m) : Steps s m b p q := by
  induction h generalizing m with
  | refl p => exact .refl p
  | step h => exact .step h
  | save p => exact .save p
  | restore hfloor hg => exact .restore hfloor hg
  | nested hasks hactive hclip _ hopen ih =>
    cases m with
    | zero => cases hnm
    | succ m => exact .nested hasks hactive hclip (ih (Nat.le_of_succ_le_succ hnm)) hopen
  | trans _ _ ih₁ ih₂ => exact (ih₁ hnm).trans (ih₂ hnm)

theorem fail_steps (p : Processor) (e : Error) (pos : Nat) (word : String) :
    Steps s n b p (settle pos word (.failed p e)) :=
  (Steps.step (.place p pos)).tail (.report _ _ _)

theorem settle_steps {reply : Reply} (h : Steps s n b p reply.processor) (pos : Nat)
    (word : String) : Steps s n b p (settle pos word reply) := by
  cases reply with
  | done q => exact h
  | failed q e => exact h.trans (fail_steps q e pos word)

theorem startLine_steps (p : Processor) (text : Showing) :
    Steps s n b p (p.startLine text).processor := by
  unfold startLine
  refine (setSpacing_steps p text.spacing).trans ?_
  dsimp only
  split
  · exact adjust_steps fun g hg => .change (c := .nextLine) ⟨.nextLine, ⟨"T*", []⟩, rfl⟩ hg
  · exact .refl _

theorem arrive_steps (s : Setting) (p : Processor) (pos : Nat) (h : p.exhausted s = false) :
    Steps s n b p (p.arrive s pos) := by
  have hroom : ({ p.poll s with pos := pos } : Processor).exhausted s = false := by
    rw [exhausted_poll, h]
  exact ((Steps.step (.look p)).tail (.place _ pos)).tail (.count hroom)

/-! ## Streams that are asked for -/

variable {run : NestedRun} {clip : Option Path}

theorem permit_ok (h : p.permit s run = .ok clip) :
    p.depth < s.config.maxDepth ∧ p.isActive run.source = false ∧ run.clipPath = .ok clip := by
  refine ⟨depth_lt_of_permit h, ?_⟩
  unfold permit at h
  split at h
  · cases h
  · rename_i hfree
    exact ⟨by simpa using (not_or.1 hfree).2, h⟩

theorem glyphAsked?_ok {font : SelectedFont} {c : CharCode}
    (h : p.glyphAsked? s font c = some (run, q)) :
    (∃ info, q = p.emit s (.glyph info)) ∧ ∃ procedure, run.source = .glyph font.load procedure := by
  simp only [glyphAsked?, Option.bind_eq_bind, Option.bind_eq_some_iff] at h
  obtain ⟨matrix, -, advance, -, h⟩ := h
  split at h
  · simp only [Option.bind_eq_some_iff] at h
    obtain ⟨procedure, -, ctm, -, h⟩ := h
    cases h
    exact ⟨⟨_, rfl⟩, _, rfl⟩
  · cases h

theorem formAsked?_ok {name : String} (h : p.formAsked? s name = some run) :
    ∃ ref form, p.externalObject s name = .ok (ref, form) ∧
      externalKind s.table form.attrs = "Form" ∧ p.formRun s name ref form = .ok run := by
  unfold formAsked? at h
  split at h
  · cases h
  · rename_i ref form hobject
    split at h
    · rename_i hkind
      cases hrun : p.formRun s name ref form with
      | error e => simp [hrun, Except.toOption] at h
      | ok found =>
        obtain rfl : found = run := by simpa [hrun, Except.toOption] using h
        exact ⟨ref, form, hobject, hkind, hrun⟩
    · cases h

/-! ## Events of a kind -/

section Silent

variable {kind law : Event → Prop} {r : Processor}

/-- From `p` to `q` no event of a kind is told of. -/
def Silent (kind : Event → Prop) (p q : Processor) : Prop :=
  ∃ told, q.events = p.events ++ told ∧ ∀ e ∈ told, ¬ kind e

/-- From `p` to `q` no event of a kind is told of, or one comes first and obeys a law. -/
def TellsFirst (kind law : Event → Prop) (p q : Processor) : Prop :=
  Silent kind p q ∨
    ∃ e later, q.events = p.events ++ e :: later ∧ law e ∧ ∀ x ∈ later, ¬ kind x

theorem Silent.of_eq (h : q.events = p.events) : Silent kind p q := ⟨[], by simp [h], by simp⟩

theorem Silent.trans (h₁ : Silent kind p q) (h₂ : Silent kind q r) :
    Silent kind p r := by
  obtain ⟨told₁, he₁, hnone₁⟩ := h₁
  obtain ⟨told₂, he₂, hnone₂⟩ := h₂
  refine ⟨told₁ ++ told₂, by rw [he₂, he₁, List.append_assoc], ?_⟩
  exact List.forall_mem_append.2 ⟨hnone₁, hnone₂⟩

theorem TellsFirst.of_eq (h : q.events = p.events) (hq : TellsFirst kind law q r) :
    TellsFirst kind law p r := by
  unfold TellsFirst Silent
  rw [← h]
  exact hq

end Silent

end Processor

namespace Activation

open Processor

variable {s : Setting} {a b c : Activation} {p q : Processor} {run : NestedRun}

/-! ## One round -/

/-- With the processor at `q` the round of `a` asks for a stream: a form that the operator at hand
names, or the procedure of the glyph at hand. -/
inductive Asking (s : Setting) (a : Activation) : Processor → NestedRun → Prop
  | form {word name : String} {pos : Nat} {rest : List ItemAt} {run : NestedRun} :
      a.text = none → a.pending = (pos, .ok (.operator word)) :: rest →
      Operator.instruction? word a.operands.reverse = some (.xobject name) →
      a.processor.exhausted s = false → (a.processor.arrive s pos).formAsked? s name = some run →
      Asking s a (a.processor.arrive s pos) run
  | glyph {font : SelectedFont} {c : CharCode} {q : Processor} {run : NestedRun} :
      a.processor.glyphAsked? s font c = some (run, q) → Asking s a q run

theorem Asking.asks (h : a.Asking s q run) : q.Asks s run := by
  cases h with
  | form _ _ _ _ hasked =>
    obtain ⟨ref, form, -, -, hrun⟩ := formAsked?_ok hasked
    exact .form hrun
  | glyph hasked =>
    obtain ⟨-, procedure, hsource⟩ := glyphAsked?_ok hasked
    exact .glyph hsource

theorem Asking.steps (h : a.Asking s q run) : Steps s 0 true a.processor q := by
  cases h with
  | form _ _ _ hroom => exact arrive_steps s _ _ hroom
  | glyph hasked =>
    obtain ⟨⟨info, rfl⟩, -⟩ := glyphAsked?_ok hasked
    exact .step (.mark _ _ rfl)

/-- What a round does. The stream takes steps of its own, and where it runs another stream, it does so
between such steps. -/
def RoundSteps (s : Setting) (a : Activation) : Next → Prop
  | .done q => Steps s 0 true a.processor q
  | .goOn b => Steps s 0 true a.processor b.processor
  | .call inner resume => ∃ q run clip, a.Asking s q run ∧ q.permit s run = .ok clip ∧
      inner = ofSegments [run.data] (q.beginNested s run clip) ∧
      ∀ r, Steps s 0 true (q.endNested s run r) (resume r).processor

theorem doWith_steps {asked : Option (NestedRun × Processor)} {next : NestedRunner → Activation}
    (hnone : asked = none → Steps s 0 true a.processor (next idle).processor)
    (hsome : ∀ run q, asked = some (run, q) → a.Asking s q run ∧
      (∀ e, Steps s 0 true q (next fun _ _ => .failed q e).processor) ∧
      ∀ r, Steps s 0 true r (next fun _ _ => .done r).processor) :
    RoundSteps s a (doWith s asked next) := by
  unfold doWith
  split
  · exact hnone rfl
  · rename_i run q
    obtain ⟨hasking, hfailed, hdone⟩ := hsome run q rfl
    split
    · rename_i e _
      exact hasking.steps.trans (hfailed e)
    · rename_i clip hpermit
      exact ⟨q, run, clip, hasking, hpermit, rfl, fun r => hdone _⟩

theorem afterPart_steps {t : ShownText} {reply : Reply}
    (h : Steps s 0 true p reply.processor) : Steps s 0 true p (a.afterPart t reply).processor := by
  cases reply with
  | done q => exact h
  | failed q e => exact settle_steps h t.pos t.word

theorem showNext_steps (s : Setting) (a : Activation) (t : ShownText) :
    RoundSteps s a (a.showNext s t) := by
  unfold showNext
  split
  · rename_i c codes _
    apply doWith_steps
    · intro _
      exact afterPart_steps (showGlyph_steps (follows_idle s) t.operator t.font c a.processor)
    · intro run q hasked
      have hanswered : Does False (fun _ => True) a.processor q ∧ _ := showGlyph_answered hasked
      obtain ⟨-, advance, hanswer⟩ := hanswered
      have hadvance : ∀ r : Processor, Steps s 0 true r (r.adjust (·.advanceText advance)).processor :=
        fun r => adjust_steps fun g hg => .advance hg
      refine ⟨.glyph hasked, fun e => afterPart_steps ?_, fun r => afterPart_steps ?_⟩
      · rw [(hanswer _ q).2 e]
        exact (Steps.step (.report q _ e)).trans (hadvance _)
      · rw [(hanswer _ r).1]
        exact hadvance r
  · exact .refl _
  · refine afterPart_steps (adjust_steps fun g hg => ?_)
    obtain ⟨d, hd⟩ := advance_of_shiftText hg
    exact .advance hd
  · exact .refl _

theorem startText_steps (a : Activation) (word : String) (p : Processor) (text : Showing) :
    Steps s 0 true p (a.startText word p text).processor := by
  unfold startText
  split
  · exact fail_steps ..
  · exact afterPart_steps (startLine_steps p text)

theorem takeItem_steps {pos : Nat} {item : Except Error Item} {rest : List ItemAt}
    (htext : a.text = none) (hpending : a.pending = (pos, item) :: rest) :
    RoundSteps s a ({ a with pending := rest }.takeItem s pos item) := by
  have hclose : ∀ {q : Processor}, Steps s 0 true a.processor q →
      Steps s 0 true a.processor (q.closeSections s) := fun h => h.trans (closeSections_steps s _).1
  have hpoll : Steps s 0 true a.processor (a.processor.poll s) := .step (.look _)
  have hplaced := hpoll.tail (.place _ pos)
  unfold takeItem
  dsimp only
  split
  · exact hclose (.step (.breakdown _))
  · split
    · exact hclose hpoll
    · split
      · exact hplaced
      · rename_i word _
        unfold takeOperator
        split
        · exact hplaced.trans (dispatch_steps (follows_idle s) _ word _)
        · rename_i hexhausted
          have hroom : a.processor.exhausted s = false := by
            rw [← exhausted_poll s a.processor pos]
            simpa using hexhausted
          have harrive : Steps s 0 true a.processor (a.processor.arrive s pos) :=
            arrive_steps s _ pos hroom
          dsimp only
          split
          · exact harrive.trans (startText_steps _ word _ _)
          · apply doWith_steps
            · intro _
              exact harrive.trans (executeWord_steps (follows_idle s) _ word _
                fun _ _ _ _ _ _ _ => rfl)
            · intro run q hasked
              obtain ⟨rfl, hanswer⟩ := executeWord_of_asked hasked
              refine ⟨?_, fun e => ?_, fun r => ?_⟩
              · unfold wordAsked? at hasked
                split at hasked
                · rename_i name hinstruction
                  obtain ⟨found, hfound, heq⟩ := Option.map_eq_some_iff.1 hasked
                  cases heq
                  exact .form htext hpending hinstruction hroom hfound
                · cases hasked
              · rw [hanswer]
                exact fail_steps ..
              · rw [hanswer]
                exact .refl r
      · exact hplaced.trans (dispatchImage_steps (follows_idle s) _ _ _)
      · exact hclose (hplaced.tail (.stop _ _))
      · exact hplaced.tail (.report _ _ _)

/-- **One round.** -/
theorem next_steps (s : Setting) (a : Activation) : RoundSteps s a (a.next s) := by
  unfold next
  split
  · exact showNext_steps s a _
  · rename_i ht hpending
    exact takeItem_steps ht hpending
  · exact .refl _
  · exact (closeSections_steps s _).1

theorem steps_of_next {next : Next} (h : a.next s = next) : RoundSteps s a next := h ▸ next_steps s a

/-- A stream is executed in steps, and ends with no section open. -/
theorem result_steps (s : Setting) (segments : List (List UInt8)) (p : Processor) :
    Steps s (s.config.maxDepth - p.depth) true p ((ofSegments segments p).result s) ∧
      ((ofSegments segments p).result s).openSections = 0 := by
  rw [result_ofSegments]
  obtain ⟨hclose, hopen⟩ := closeSections_steps (n := s.config.maxDepth - p.depth) (b := true) s
    (executeItems s (runner s (s.config.maxDepth - p.depth)) (Content.items segments) [] p)
  exact ⟨(executeItems_steps (runner_steps s _) _ [] p).trans hclose, hopen⟩

/-! ## Visits -/

/-- The activations that a run comes to: round by round, and where a round runs another stream, first
within that one and then with what it left. -/
inductive Visits (s : Setting) : Activation → Activation → Prop
  | here (a : Activation) : Visits s a a
  | goOn {a b c : Activation} : a.next s = .goOn b → Visits s b c → Visits s a c
  | inside {a inner c : Activation} {resume : Processor → Activation} :
      a.next s = .call inner resume → Visits s inner c → Visits s a c
  | behind {a inner c : Activation} {resume : Processor → Activation} :
      a.next s = .call inner resume → Visits s (resume (inner.result s)) c → Visits s a c

theorem visits_of_done (h : a.next s = .done p) : a.Visits s c ↔ c = a := by
  constructor
  · intro hc
    cases hc with
    | here => rfl
    | goOn hnext | inside hnext | behind hnext => cases h.symm.trans hnext
  · rintro rfl
    exact .here c

theorem visits_of_goOn (h : a.next s = .goOn b) : a.Visits s c ↔ c = a ∨ b.Visits s c := by
  constructor
  · intro hc
    cases hc with
    | here => exact .inl rfl
    | goOn hnext hc =>
      obtain rfl := Next.goOn.inj (h.symm.trans hnext)
      exact .inr hc
    | inside hnext | behind hnext => cases h.symm.trans hnext
  · rintro (rfl | hc)
    · exact .here c
    · exact .goOn h hc

theorem visits_of_call {inner : Activation} {resume : Processor → Activation}
    (h : a.next s = .call inner resume) :
    a.Visits s c ↔ c = a ∨ inner.Visits s c ∨ (resume (inner.result s)).Visits s c := by
  constructor
  · intro hc
    cases hc with
    | here => exact .inl rfl
    | goOn hnext => cases h.symm.trans hnext
    | inside hnext hc =>
      obtain ⟨rfl, -⟩ := Next.call.inj (h.symm.trans hnext)
      exact .inr (.inl hc)
    | behind hnext hc =>
      obtain ⟨rfl, rfl⟩ := Next.call.inj (h.symm.trans hnext)
      exact .inr (.inr hc)
  · rintro (rfl | hc | hc)
    · exact .here c
    · exact .inside h hc
    · exact .behind h hc

section Keeps

variable {invariant : Processor → Prop}

/-- A round keeps an invariant of processors. Where it runs another stream, it hands the invariant in
and takes it from what that one leaves. -/
def Keeps (invariant : Processor → Prop) : Next → Prop
  | .done q => invariant q
  | .goOn b => invariant b.processor
  | .call inner resume =>
    invariant inner.processor ∧ ∀ q, invariant q → invariant (resume q).processor

/-- What one round keeps, the end of an activation keeps. -/
theorem result_keeps (hround : ∀ a : Activation, invariant a.processor → Keeps invariant (a.next s))
    (ha : invariant a.processor) : invariant (a.result s) := by
  refine result_induction (motive := fun a q => invariant a.processor → invariant q) ?_ ?_ ?_ a ha
  · intro a p hnext ha
    have hkeeps := hround a ha
    rwa [hnext] at hkeeps
  · intro a b q hnext hrest ha
    have hkeeps := hround a ha
    rw [hnext] at hkeeps
    exact hrest hkeeps
  · intro a inner resume q hnext hinner hrest ha
    have hkeeps := hround a ha
    rw [hnext] at hkeeps
    exact hrest (hkeeps.2 _ (hinner hkeeps.1))

/-- What one round keeps holds in every activation that a run comes to. -/
theorem Visits.keeps (h : a.Visits s c)
    (hround : ∀ a : Activation, invariant a.processor → Keeps invariant (a.next s))
    (ha : invariant a.processor) : invariant c.processor := by
  induction h with
  | here => exact ha
  | goOn hnext _ ih =>
    have hkeeps := hround _ ha
    rw [hnext] at hkeeps
    exact ih hkeeps
  | inside hnext _ ih =>
    have hkeeps := hround _ ha
    rw [hnext] at hkeeps
    exact ih hkeeps.1
  | behind hnext _ ih =>
    have hkeeps := hround _ ha
    rw [hnext] at hkeeps
    exact ih (hkeeps.2 _ (result_keeps hround hkeeps.1))

end Keeps

/-- **Every activation** that a run comes to has the processor at a moment of the run. -/
theorem Visits.moment {p₀ : Processor} {n : Nat} {running : List NestedSource} (h : a.Visits s c)
    (ha : Moment s p₀ n running a.processor) (hdepth : a.processor.depth + n = s.config.maxDepth) :
    ∃ n running, Moment s p₀ n running c.processor := by
  induction h generalizing n running with
  | here => exact ⟨n, running, ha⟩
  | goOn hnext _ ih =>
    have hsteps : Steps s 0 true _ _ := steps_of_next hnext
    exact ih (ha.course (hsteps.mono (Nat.zero_le n))) (by rw [hsteps.keeps_depth, hdepth])
  | inside hnext _ ih =>
    obtain ⟨q, run, clip, hasking, hpermit, rfl, -⟩ := steps_of_next hnext
    obtain ⟨hroom, hactive, hclip⟩ := permit_ok hpermit
    have hq := hasking.steps.keeps_depth
    obtain ⟨m, rfl⟩ : ∃ m, n = m + 1 := ⟨n - 1, by omega⟩
    refine ih ((ha.course (hasking.steps.mono (Nat.zero_le _))).inside hasking.asks hactive hclip) ?_
    show (q.beginNested s run clip).depth + m = s.config.maxDepth
    rw [depth_beginNested]
    omega
  | behind hnext _ ih =>
    obtain ⟨q, run, clip, hasking, hpermit, rfl, hback⟩ := steps_of_next hnext
    obtain ⟨hroom, hactive, hclip⟩ := permit_ok hpermit
    have hq := hasking.steps.keeps_depth
    obtain ⟨m, rfl⟩ : ∃ m, n = m + 1 := ⟨n - 1, by omega⟩
    obtain ⟨hinner, hopen⟩ := result_steps s [run.data] (q.beginNested s run clip)
    have hleft : s.config.maxDepth - (q.beginNested s run clip).depth = m := by
      rw [depth_beginNested]
      omega
    rw [hleft] at hinner
    have hnested : Steps s (m + 1) true q _ :=
      .nested hasking.asks hactive hclip hinner hopen
    have hall := ((hasking.steps.mono (Nat.zero_le (m + 1))).trans hnested).trans
      ((hback _).mono (Nat.zero_le (m + 1)))
    exact ih (ha.course hall) (by rw [hall.keeps_depth, hdepth])

theorem Visits.moment_of_page {cancelIn : Option Nat} {segments : List (List UInt8)}
    {resources : Dict}
    (h : (ofSegments segments (beginPage s cancelIn resources)).Visits s c) :
    ∃ n running, Moment s (beginPage s cancelIn resources) n running c.processor :=
  h.moment .start (Nat.zero_add _)

/-! ## The rounds behind the events -/

/-- The activation that a round leads to at once: the stream that goes on, or the one that it runs. -/
def Next.first? : Next → Option Activation
  | .done _ => none
  | .goOn b => some b
  | .call inner _ => some inner

/-- The first event of the round of `a` is `e`, right behind the events `before`. -/
def Tells (s : Setting) (a : Activation) (before : List Event) (e : Event) : Prop :=
  a.processor.events = before ∧
    ∃ b later, (a.next s).first? = some b ∧ b.processor.events = before ++ e :: later

section Accounts

variable {kind : Event → Prop} {law : Activation → Event → Prop}

/-- A round that tells of an event of a kind first or not at all. -/
def RoundTells (kind law : Event → Prop) (p : Processor) : Next → Prop
  | .done q => Silent kind p q
  | .goOn b => TellsFirst kind law p b.processor
  | .call inner resume =>
    TellsFirst kind law p inner.processor ∧ ∀ q, Silent kind q (resume q).processor

theorem RoundTells.of_eq {law : Event → Prop} {next : Next} (h : q.events = p.events)
    (hnext : RoundTells kind law q next) : RoundTells kind law p next := by
  cases next with
  | done r => exact (Silent.of_eq h).trans hnext
  | goOn b => exact TellsFirst.of_eq h hnext
  | call inner resume => exact ⟨.of_eq h hnext.1, hnext.2⟩

/-- Every event of a kind that is told of from `p` to `q` was told by the round of an activation that
`a` comes to, and under the law. -/
def Accounts (s : Setting) (kind : Event → Prop) (law : Activation → Event → Prop) (a : Activation)
    (p q : Processor) : Prop :=
  ∃ told, q.events = p.events ++ told ∧ ∀ before e after, told = before ++ e :: after → kind e →
    ∃ c, a.Visits s c ∧ c.Tells s (p.events ++ before) e ∧ law c e

namespace Accounts

variable {r : Processor}

theorem of_silent (h : Silent kind p q) : Accounts s kind law a p q := by
  obtain ⟨told, hevents, hnone⟩ := h
  refine ⟨told, hevents, ?_⟩
  rintro before e after rfl hkind
  exact absurd hkind (hnone e (by simp))

theorem of_tellsFirst (h : TellsFirst kind (law a) a.processor b.processor)
    (hnext : (a.next s).first? = some b) : Accounts s kind law a a.processor b.processor := by
  rcases h with hsilent | ⟨e, later, hevents, hlaw, hlater⟩
  · exact .of_silent hsilent
  · refine ⟨e :: later, hevents, fun before e' after heq hkind => ?_⟩
    cases before with
    | nil =>
      obtain ⟨rfl, -⟩ := List.cons.inj heq
      rw [List.append_nil]
      exact ⟨a, .here a, ⟨rfl, b, later, hnext, hevents⟩, hlaw⟩
    | cons first before =>
      obtain ⟨rfl, rfl⟩ := List.cons.inj heq
      exact absurd hkind (hlater e' (by simp))

theorem trans (h₁ : Accounts s kind law a p q) (h₂ : Accounts s kind law a q r) :
    Accounts s kind law a p r := by
  obtain ⟨told₁, hevents₁, hfound₁⟩ := h₁
  obtain ⟨told₂, hevents₂, hfound₂⟩ := h₂
  refine ⟨told₁ ++ told₂, by rw [hevents₂, hevents₁, List.append_assoc], ?_⟩
  intro before e after heq hkind
  -- The event is one of the second part, with all of the first before it, or one of the first.
  have hlater : ∀ between, told₂ = between ++ e :: after →
      ∃ c, a.Visits s c ∧ c.Tells s (p.events ++ (told₁ ++ between)) e ∧ law c e := by
    intro between htold
    rw [← List.append_assoc, ← hevents₁]
    exact hfound₂ between e after htold hkind
  rcases List.append_eq_append_iff.1 heq with ⟨between, rfl, htold⟩ | ⟨rest, htold, hrest⟩
  · exact hlater between htold
  · cases rest with
    | nil =>
      rw [List.append_nil] at htold
      have hfirst := hlater [] hrest.symm
      rwa [List.append_nil, htold] at hfirst
    | cons first rest =>
      obtain ⟨rfl, -⟩ := List.cons.inj hrest
      exact hfound₁ before e rest htold hkind

theorem mono (h : Accounts s kind law b p q) (hvisits : ∀ c, b.Visits s c → a.Visits s c) :
    Accounts s kind law a p q := by
  obtain ⟨told, hevents, hfound⟩ := h
  refine ⟨told, hevents, fun before e after heq hkind => ?_⟩
  obtain ⟨c, hc, hlaw⟩ := hfound before e after heq hkind
  exact ⟨c, hvisits c hc, hlaw⟩

end Accounts

/-- **Every run** accounts for its events, if all its rounds do. -/
theorem result_accounts (a : Activation)
    (hround : ∀ c, a.Visits s c → RoundTells kind (law c) c.processor (c.next s)) :
    Accounts s kind law a a.processor (a.result s) := by
  refine result_induction (motive := fun a q =>
    (∀ c, a.Visits s c → RoundTells kind (law c) c.processor (c.next s)) →
      Accounts s kind law a a.processor q) ?_ ?_ ?_ a hround
  · intro a p hnext hround
    have hhere := hround a (.here a)
    rw [hnext] at hhere
    exact .of_silent hhere
  · intro a b q hnext hrest hround
    have hhere := hround a (.here a)
    rw [hnext] at hhere
    have hb : Accounts s kind law a a.processor b.processor :=
      .of_tellsFirst hhere (by rw [hnext]; rfl)
    exact hb.trans ((hrest fun c hc => hround c (.goOn hnext hc)).mono fun c => .goOn hnext)
  · intro a inner resume q hnext hinner hrest hround
    have hhere := hround a (.here a)
    rw [hnext] at hhere
    have hstart : Accounts s kind law a a.processor inner.processor :=
      .of_tellsFirst hhere.1 (by rw [hnext]; rfl)
    have hwithin := (hinner fun c hc => hround c (.inside hnext hc)).mono fun c => Visits.inside hnext
    have hback : Accounts s kind law a (inner.result s) (resume (inner.result s)).processor :=
      .of_silent (hhere.2 _)
    have hlater := (hrest fun c hc => hround c (.behind hnext hc)).mono fun c => Visits.behind hnext
    exact (hstart.trans hwithin).trans (hback.trans hlater)

end Accounts

end Activation

namespace Processor

/-- What a page was heard to tell of goes back to its rounds as well. -/
theorem process_accounts {s : Setting} {cancelIn : Option Nat} {segments : List (List UInt8)}
    {resources : Dict} {kind : Event → Prop} {law : Activation → Event → Prop}
    (hround : ∀ c, (Activation.ofSegments segments (beginPage s cancelIn resources)).Visits s c →
      Activation.RoundTells kind (law c) c.processor (c.next s))
    {before after : List Event} {e : Event}
    (h : ((Activation.ofSegments segments (beginPage s cancelIn resources)).result s).ended.events =
      before ++ e :: after) (hkind : kind e) :
    ∃ a, (Activation.ofSegments segments (beginPage s cancelIn resources)).Visits s a ∧
      a.Tells s before e ∧ law a e := by
  obtain ⟨told, htold, hfound⟩ := Activation.result_accounts _ hround
  -- Nothing was told before the page, and what was heard is the first part of what was told.
  obtain ⟨unheard, hunheard⟩ := ended_events_isPrefix
    ((Activation.ofSegments segments (beginPage s cancelIn resources)).result s)
  have hevents : told = before ++ e :: (after ++ unheard) := by
    rw [← List.cons_append, ← List.append_assoc, ← h, hunheard]
    exact htold.symm
  exact hfound before e (after ++ unheard) hevents hkind

/-- **Consistency.** From a moment of a run the execution of any items leads to a moment again, and at
each moment the stacks of the processor fit together and no stream runs inside itself. So they do in
every activation that a page comes to. All events and diagnostics of the page come from within the
limit on nesting. -/
theorem process_consistent (s : Setting) (cancelIn : Option Nat) (segments : List (List UInt8))
    (resources : Dict) :
    (∀ n running q, Moment s (beginPage s cancelIn resources) n running q →
      Consistent s running q ∧ ∀ items operands,
        Moment s (beginPage s cancelIn resources) n running
          (executeItems s (runner s n) items operands q)) ∧
    (∀ a, (Activation.ofSegments segments (beginPage s cancelIn resources)).Visits s a →
      ∃ running, Consistent s running a.processor) ∧
    ∃ outcome q, (start s cancelIn).process s segments resources = .ok (outcome, q) ∧
      (∀ e ∈ q.events, e.depth ≤ s.config.maxDepth) ∧
      ∀ d ∈ outcome.diagnostics, d.depth ≤ s.config.maxDepth := by
  refine ⟨fun n running q h => ⟨h.consistent.1, h.executeItems⟩, fun a ha => ?_, ?_⟩
  · obtain ⟨n, running, hmoment⟩ := ha.moment_of_page
    exact ⟨running, hmoment.consistent.1⟩
  obtain ⟨inner, hsteps, -, heq⟩ := execute_steps (runner_steps s s.config.maxDepth)
    (beginPage s cancelIn resources) (Content.items segments)
  have hinner : Moment s (beginPage s cancelIn resources) s.config.maxDepth [] inner :=
    .course .start hsteps
  -- The log is complete when the page has been executed.
  have hlog : ((beginPage s cancelIn resources).execute s (runner s s.config.maxDepth)
      (Content.items segments)).log = inner.log := by rw [heq]
  have hwithin := hinner.consistent.1.log
  rw [← hlog] at hwithin
  refine ⟨_, _, rfl, fun e he => ?_, fun d hd => ?_⟩
  · exact hwithin _ (mem_log_of_mem_events ((ended_events_isPrefix _).subset he))
  · exact hwithin _ (mem_log_of_mem_diagnostics ((outcome_diagnostics_isPrefix _).subset hd))

end Processor

end ContentStream
