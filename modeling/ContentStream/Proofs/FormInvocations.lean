import ContentStream.Proofs.Visits

/-!
# Forms and the streams that run them

Listeners are told where a form begins. This module finds the stream that ran the form.

* `BeginsForm`: how a form begins, as seen from where the stream around it stands.
* `Activation.Invokes`: a round that takes up the operator `Do`, and the event of the form under the
  name that stands in front of it.

**Theorem (`process_forms_confined`).** Every form that a page tells of was run by the round of a `Do`.
It begins with its own matrix in front of the matrix that was current there, and clipped by its box. No
clip leaves that one up to the end of the form.

By itself a stream never tells of the beginning of a form (`Steps.noForms`), and a round starts one
other stream at most. So a round tells of one form at most, and of nothing before it (`next_invokes`).
-/

namespace ContentStream

namespace Operator

variable {word name : String} {args : List Object}

theorem table_xobject : ∀ entry ∈ table, entry.2.1 = xobject → entry = ("Do", xobject, .exact 1) := by
  decide

/-- External objects are asked for by `Do` and a name. -/
theorem operands_of_xobject (h : instruction? word args = some (.xobject name)) :
    word = "Do" ∧ args = [.name name] := by
  obtain ⟨op, arity, hfind, harity, hread⟩ := instruction?_eq_some.1 h
  obtain rfl := List.mem_singleton.1 (mem_operators_of_read hread)
  cases table_xobject _ (mem_table_of_find? hfind) rfl
  refine ⟨rfl, ?_⟩
  obtain ⟨name', hname, hread⟩ := exists_of_bind_ok hread
  cases hread
  match args, harity with
  | [first], _ =>
    cases first <;> cases hname
    rfl

end Operator

namespace Processor

variable {s : Setting} {b : Bool} {p q : Processor} {e : Event}

/-! ## Beginnings -/

/-- An event tells that `caller` runs the form under a name, with the form's matrix in front of the
caller's and clipped by the form's box, if it has one: the box, mapped to device space, is the last
region of the clip. -/
structure BeginsForm (s : Setting) (caller : Processor) (info : FormInfo) (e : Event) : Prop where
  found : ∃ ref form, caller.externalObject s info.name = .ok (ref, form) ∧
    externalKind s.table form.attrs = "Form" ∧
    FormInfo.read s.table info.name form.attrs = .ok info
  depth : e.depth = caller.depth + 1
  ctm : info.matrix.mul? caller.gstate.ctm = some e.state.ctm
  unboxed : info.bbox = none → e.state.clip = caller.gstate.clip
  boxed : ∀ box, info.bbox = some box → ∃ path bounds,
    Path.transform? e.state.ctm (Path.rectangle box) = some path ∧ Path.bbox? path = some bounds ∧
      e.state.clip = caller.gstate.clip.intersect path .nonzero ∧
      e.state.clip.regions = caller.gstate.clip.regions ++ [⟨path, .nonzero, bounds⟩]

theorem BeginsForm.of_same {info : FormInfo} (h : BeginsForm s q info e)
    (hresources : q.resources = p.resources) (hgstate : q.gstate = p.gstate)
    (hdepth : q.depth = p.depth) : BeginsForm s p info e where
  found := by
    have hobject : p.externalObject s info.name = q.externalObject s info.name := by
      simp only [externalObject, lookup, hresources]
    rw [hobject]
    exact h.found
  depth := hdepth ▸ h.depth
  ctm := hgstate ▸ h.ctm
  unboxed := hgstate ▸ h.unboxed
  boxed := hgstate ▸ h.boxed

theorem formRun_ok {name : String} {ref : Option ObjectRef} {form : Stream} {run : NestedRun}
    (h : p.formRun s name ref form = .ok run) :
    ∃ info, FormInfo.read s.table name form.attrs = .ok info ∧ run.source = .form info ref ∧
      info.name = name ∧ info.matrix.mul? p.gstate.ctm = some run.ctm := by
  obtain ⟨info, hinfo, h⟩ := exists_of_bind_ok h
  obtain ⟨ctm, hctm, h⟩ := exists_of_bind_ok h
  cases h
  refine ⟨info, hinfo, rfl, ?_, ?_⟩
  · obtain ⟨matrix, -, hinfo⟩ := exists_of_bind_ok hinfo
    obtain ⟨bbox, -, hinfo⟩ := exists_of_bind_ok hinfo
    cases hinfo
    rfl
  · cases hmul : info.matrix.mul? p.gstate.ctm with
    | none => rw [hmul] at hctm; cases hctm
    | some m => rw [hmul] at hctm; cases hctm; rfl

/-- A rectangle has points, wherever it is mapped. -/
theorem exists_bbox_rectangle {m : Matrix} {box : Rect} {path : Path}
    (h : Path.transform? m (Path.rectangle box) = some path) :
    ∃ bounds, Path.bbox? path = some bounds := by
  simp only [Path.transform?, Path.rectangle, List.mapM_cons, Option.bind_eq_bind,
    Option.bind_eq_some_iff, Segment.transform?, Option.map_eq_map, Option.map_eq_some_iff] at h
  obtain ⟨first, ⟨corner, -, rfl⟩, rest, -, h⟩ := h
  cases h
  exact ⟨_, rfl⟩

theorem exists_clipPath {run : NestedRun} {info : FormInfo} {ref : Option ObjectRef} {box : Rect}
    {path : Option Path} (hsource : run.source = .form info ref) (hbox : info.bbox = some box)
    (h : run.clipPath = .ok path) :
    ∃ device, path = some device ∧ Path.transform? run.ctm (Path.rectangle box) = some device := by
  obtain ⟨name, matrix, bbox⟩ := info
  subst hbox
  simp only [NestedRun.clipPath, hsource] at h
  obtain ⟨device, hdevice, rfl⟩ := exists_of_map_ok h
  refine ⟨device, rfl, ?_⟩
  cases ht : Path.transform? run.ctm (Path.rectangle box) with
  | none => rw [ht] at hdevice; cases hdevice
  | some d => rw [ht] at hdevice; cases hdevice; rfl

theorem clipPath_of_none {run : NestedRun} {info : FormInfo} {ref : Option ObjectRef}
    {path : Option Path} (hsource : run.source = .form info ref) (hbox : info.bbox = none)
    (h : run.clipPath = .ok path) : path = none := by
  obtain ⟨name, matrix, bbox⟩ := info
  subst hbox
  simp only [NestedRun.clipPath, hsource] at h
  cases h
  rfl

/-- A form begins as its description says. -/
theorem beginsForm_beginNested {name : String} {run : NestedRun} {path : Option Path}
    (hasked : p.formAsked? s name = some run) (hpath : run.clipPath = .ok path) :
    ∃ info ref, run.source = .form info ref ∧ info.name = name ∧
      BeginsForm s p info
        ⟨(p.beginNested s run path).depth, (p.beginNested s run path).gstate, .formBegin info⟩ := by
  obtain ⟨ref, form, hobject, hkind, hrun⟩ := formAsked?_ok hasked
  obtain ⟨info, hinfo, hsource, rfl, hctm⟩ := formRun_ok hrun
  have hgstate := gstate_beginNested s p path hsource
  refine ⟨info, ref, hsource, rfl, ⟨ref, form, hobject, hkind, hinfo⟩, depth_beginNested .., ?_,
    fun hbox => ?_, fun box hbox => ?_⟩
  · rw [hgstate]
    exact hctm
  · rw [hgstate, clipPath_of_none hsource hbox hpath]
    rfl
  · obtain ⟨device, rfl, hdevice⟩ := exists_clipPath hsource hbox hpath
    obtain ⟨bounds, hbounds⟩ := exists_bbox_rectangle hdevice
    rw [hgstate]
    exact ⟨device, bounds, hdevice, hbounds, rfl, Clip.intersect_regions _ _ hbounds⟩

/-! ## Events without forms -/

/-- From `p` to `q` the beginning of a form is not told of. -/
abbrev NoForms : Processor → Processor → Prop :=
  Silent fun e => ∃ info, e.payload = .formBegin info

/-- A course without streams inside tells of no form. -/
theorem Steps.noForms (h : Steps s 0 b p q) : NoForms p q := by
  generalize hn : 0 = n at h
  induction h with
  | refl p => exact .of_eq rfl
  | step h =>
    obtain ⟨told, htold, hother⟩ := h.events
    exact ⟨told, htold, fun e he ⟨info, hinfo⟩ => (hother e he).2 info hinfo⟩
  | save p => exact .of_eq rfl
  | restore => exact .of_eq rfl
  | nested => cases hn
  | trans _ _ ih₁ ih₂ => exact (ih₁ hn).trans (ih₂ hn)

theorem endNested_noForms (s : Setting) (p : Processor) (run : NestedRun) (inner : Processor) :
    NoForms inner (p.endNested s run inner) := by
  refine ⟨_, events_endNested s p run inner, fun e he => ?_⟩
  unfold formEvents at he
  split at he
  · split at he
    · cases List.mem_singleton.1 he
      rintro ⟨info, hinfo⟩
      cases hinfo
    · cases he
  · cases he

theorem resources_arrive (s : Setting) (p : Processor) (pos : Nat) :
    (p.arrive s pos).resources = p.resources := by
  unfold arrive poll
  split <;> rfl

/-- What is told where a form begins. -/
theorem formEvents_form {run : NestedRun} {info : FormInfo} {ref : Option ObjectRef}
    (payload : FormInfo → EventPayload) (hsource : run.source = .form info ref) :
    formEvents s run payload p = if s.listening then [⟨p.depth, p.gstate, payload info⟩] else [] := by
  rw [formEvents, hsource]

end Processor

/-! ## The rounds of a run -/

namespace Activation

open Processor

variable {s : Setting} {a : Activation} {q : Processor} {run : NestedRun} {clip : Option Path}

/-- The round takes up the operator `Do` with a name, and `e` tells that the form under that name
begins, run from where the stream stands. -/
structure Invokes (s : Setting) (a : Activation) (e : Event) (info : FormInfo) : Prop where
  text : a.text = none
  operands : a.operands = [.name info.name]
  operator : ∃ pos rest, a.pending = (pos, .ok (.operator "Do")) :: rest
  begins : BeginsForm s a.processor info e

/-- Where a stream starts another, nothing comes before the beginning of a form. -/
theorem Asking.invokes (h : a.Asking s q run) (hclip : run.clipPath = .ok clip) :
    TellsFirst (fun e => ∃ info, e.payload = .formBegin info)
      (fun e => ∀ info, e.payload = .formBegin info → a.Invokes s e info) a.processor
      (q.beginNested s run clip) := by
  have hevents := events_beginNested s q run clip
  have hsilent := h.steps.noForms
  cases h with
  | glyph hasked =>
    obtain ⟨-, procedure, hsource⟩ := glyphAsked?_ok hasked
    refine .inl (hsilent.trans (.of_eq ?_))
    rw [hevents, formEvents, hsource]
    exact List.append_nil _
  | @form word name pos rest _ htext hpending hinstruction hroom hasked =>
    obtain ⟨info, ref, hsource, rfl, hbegins⟩ := beginsForm_beginNested hasked hclip
    obtain ⟨hgstate, -, -, hdepth, hlog⟩ := arrive_same s a.processor pos
    have hsame : (a.processor.arrive s pos).events = a.processor.events := by
      simp only [events, entries, hlog]
    obtain ⟨rfl, hoperands⟩ := Operator.operands_of_xobject hinstruction
    rw [formEvents_form .formBegin hsource, hsame] at hevents
    by_cases hlistening : s.listening = true
    · rw [if_pos hlistening] at hevents
      refine .inr ⟨_, [], hevents, fun info' hinfo => ?_, by simp⟩
      cases hinfo
      exact {
        text := htext
        operands := by simpa using congrArg List.reverse hoperands
        operator := ⟨pos, rest, hpending⟩
        begins := hbegins.of_same (resources_arrive ..) hgstate hdepth }
    · refine .inl (.of_eq ?_)
      rw [hevents, if_neg hlistening, List.append_nil]

/-- **One round** starts a form that its operator names, or tells of none. -/
theorem next_invokes (s : Setting) (a : Activation) :
    RoundTells (fun e => ∃ info, e.payload = .formBegin info)
      (fun e => ∀ info, e.payload = .formBegin info → a.Invokes s e info) a.processor (a.next s) := by
  have hsteps := next_steps s a
  cases hnext : a.next s with
  | done q =>
    rw [hnext] at hsteps
    exact hsteps.noForms
  | goOn b =>
    rw [hnext] at hsteps
    exact .inl hsteps.noForms
  | call inner resume =>
    rw [hnext] at hsteps
    obtain ⟨q, run, clip, hasking, hpermit, rfl, hback⟩ := hsteps
    refine ⟨hasking.invokes (permit_ok hpermit).2.2, fun r => ?_⟩
    exact (endNested_noForms s q run r).trans (hback r).noForms

end Activation

namespace Processor

/-- **Forms stay within their clip.** Each form among the events of a page was run by the round of a
`Do`, behind the events before it. It begins with its matrix in front of the one that was current in
that round, and the last region of its clip is its box under this matrix, if it has a box. The form
ends, with all brackets in between closed, and no event up to its end has a clip that leaves the one at
the beginning. Where a page broke down, this holds of what was heard up to then. -/
theorem process_forms_confined (s : Setting) (cancelIn : Option Nat) (segments : List (List UInt8))
    (resources : Dict) :
    let page := Activation.ofSegments segments (beginPage s cancelIn resources)
    ∃ outcome q, (start s cancelIn).process s segments resources = .ok (outcome, q) ∧
      ∀ before e rest info, q.events = before ++ e :: rest → e.payload = .formBegin info →
        (∃ a, page.Visits s a ∧ a.Tells s before e ∧ a.Invokes s e info) ∧
        (outcome.status ≠ .broken → ConfinesForm info e rest) ∧
        ∃ unheard, ConfinesForm info e (rest ++ unheard) := by
  intro page
  refine ⟨(page.result s).outcome, (page.result s).ended, ?_, ?_⟩
  · rw [process_start, execute_beginPage]
  · intro before e rest info heq hinfo
    obtain ⟨a, ha, htells, hinvokes⟩ := process_accounts
      (fun c _ => Activation.next_invokes s c) heq ⟨info, hinfo⟩
    have hlaw : ∀ {rest : List Event}, (page.result s).events = before ++ e :: rest →
        ConfinesForm info e rest := by
      intro rest hall
      rw [← execute_beginPage] at hall
      exact execute_formLaw s cancelIn (Content.items segments) resources hall info hinfo
    refine ⟨⟨a, ha, htells, hinvokes info hinfo⟩, fun hstatus => hlaw ?_, ?_⟩
    · rw [← heq, ended_of_not_broken (broken_eq_false hstatus)]
      rfl
    · obtain ⟨unheard, hunheard⟩ := (page.result s).ended_events_isPrefix
      refine ⟨unheard, hlaw ?_⟩
      rw [← hunheard, heq, List.append_assoc]
      rfl

end Processor

end ContentStream
