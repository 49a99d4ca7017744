import ContentStream.Output.Tags
import ContentStream.Proofs.Conventions
import ContentStream.Proofs.Nesting

/-!
# Tagged text cannot be forged

The dump of pages as tagged text is written from events alone, by a writer that keeps a stack of the
tags it has opened. Everything in it but the brackets comes from content: tags, keys and values of
properties, the text of glyphs.

**Theorem (`writePages_tagged`).** Run pages one after the other, to their ends or not, and write all of
them with one writer. Each page is an element with its number around the texts of its events. There
the end of a section is the closing tag of its own label, which is the label of the section that it
ends. Nothing is left open when a run is over, and the only `<` are those of the page itself and
one for each event of marked content.

All this is about runs that do not break down, and as long as there are numbers for the pages. The page
of a run that breaks down has no end, and what it had opened stays open (`writePages_broken`).

The writer does not look at the label of the section that ends. It takes the tag from its stack,
which follows the events as one reads brackets (`writeEvents_eq`). Forms have brackets, too, and the
stack knows nothing of them: taking them out of a word leaves it well bracketed (`Reads.filterMap`).
-/

namespace ContentStream

/-! ## Brackets that are left out -/

section Words

variable {α β : Type}

/-- A bracket with its label seen through `f`, which may leave it out. -/
def Bracket.filterMap (f : α → Option β) : Bracket α → Option (Bracket β)
  | .opening label => (f label).map .opening
  | .closing label => (f label).map .closing

/-- Reading does not notice brackets that are left out together with their partners. -/
theorem Reads.filterMap {stack stack' : List α} {w : List (Bracket α)} (h : Reads stack w stack')
    (f : α → Option β) :
    Reads (stack.filterMap f) (w.filterMap (Bracket.filterMap f)) (stack'.filterMap f) := by
  induction h with
  | nil stack => exact .nil _
  | @opening label stack stack' w _ ih =>
    cases hf : f label with
    | none => simpa [hf, Bracket.filterMap] using ih
    | some b =>
      rw [List.filterMap_cons_some hf] at ih
      simpa [hf, Bracket.filterMap] using ih.opening
  | @closing label stack stack' w _ ih =>
    cases hf : f label with
    | none => simpa [hf, Bracket.filterMap] using ih
    | some b => simpa [hf, Bracket.filterMap] using ih.closing

theorem WellBracketed.reads {w : List (Bracket α)} (h : WellBracketed w) (stack : List α) :
    Reads stack w stack := by
  induction h generalizing stack with
  | nil => exact .nil stack
  | pair label _ _ ihInside ihRest =>
    exact .opening ((ihInside (label :: stack)).append (.closing (ihRest stack)))

end Words

/-- The tag of a section, while a form has none. -/
def BracketLabel.tag? : BracketLabel → Option String
  | .marked label => some label.tag
  | .form _ => none

namespace EventPayload

/-- The bracket of a section, labelled with its tag. -/
def tagBracket? : EventPayload → Option (Bracket String)
  | .sectionBegin label => some (.opening label.tag)
  | .sectionEnd label => some (.closing label.tag)
  | _ => none

/-- Whether an event is about marked content. -/
def isMarked : EventPayload → Bool
  | .sectionBegin _ | .sectionEnd _ | .sectionPoint _ => true
  | _ => false

/-- What an event comes to in tagged text. -/
def tagText : EventPayload → String
  | .sectionBegin label => TagWriter.openingTag label
  | .sectionEnd label => TagWriter.closingTag label.tag
  | .sectionPoint label => TagWriter.openingTag label
  | .glyph info => (info.text.map Markup.escape).getD ""
  | _ => ""

end EventPayload

/-- The bracket of a section, labelled with its tag. -/
def Event.tagBracket? (e : Event) : Option (Bracket String) := e.payload.tagBracket?

theorem Event.tagBracket?_eq (e : Event) :
    (e.bracket?.bind <| Bracket.filterMap fun label => label.2.tag?) = e.tagBracket? := by
  obtain ⟨depth, state, payload⟩ := e
  cases payload <;> rfl

/-! ## Angle brackets -/

namespace Markup

/-- Escaped text holds no angle bracket, whatever the text is. -/
@[simp] theorem count_lt_escape (text : String) : (escape text).toList.count '<' = 0 :=
  List.count_eq_zero.2 fun hmem => (conventions.inert text '<' hmem).1 rfl

end Markup

namespace TagWriter

theorem count_lt_join {texts : List String} (h : ∀ text ∈ texts, text.toList.count '<' = 0) :
    (String.join texts).toList.count '<' = 0 := by
  rw [List.count_eq_zero, String.toList_join]
  intro hmem
  obtain ⟨text, htext, hlt⟩ := List.mem_flatMap.1 hmem
  exact List.count_eq_zero.1 (h text htext) hlt

theorem count_lt_attributeText (entry : String × Object) :
    (attributeText entry).toList.count '<' = 0 := by
  simp [attributeText, List.count_append]

theorem count_lt_openingTag (label : MarkedContent) :
    (openingTag label).toList.count '<' = 1 := by
  have hattributes : (String.join ((sortedEntries (label.props.getD [])).map
      attributeText)).toList.count '<' = 0 := by
    refine count_lt_join fun text htext => ?_
    obtain ⟨entry, -, rfl⟩ := List.mem_map.1 htext
    exact count_lt_attributeText entry
  simp only [openingTag, String.toList_append, List.count_append, Markup.count_lt_escape, hattributes]
  rfl

theorem count_lt_closingTag (tag : String) : (closingTag tag).toList.count '<' = 1 := by
  simp only [closingTag, String.toList_append, List.count_append, Markup.count_lt_escape]
  rfl

theorem count_lt_toString (n : Nat) : (toString n).toList.count '<' = 0 := by
  rw [List.count_eq_zero, Nat.toString_eq_ofList_toDigits, String.toList_ofList]
  intro hmem
  have hdigit := Nat.isDigit_of_mem_toDigits (by decide) (by decide) hmem
  exact absurd hdigit (by decide)

theorem count_lt_tagText (payload : EventPayload) :
    payload.tagText.toList.count '<' = if payload.isMarked then 1 else 0 := by
  cases payload with
  | sectionBegin label => exact count_lt_openingTag label
  | sectionEnd label => exact count_lt_closingTag label.tag
  | sectionPoint label => exact count_lt_openingTag label
  | glyph info =>
    simp only [EventPayload.tagText, EventPayload.isMarked]
    cases info.text with
    | none => rfl
    | some text => exact Markup.count_lt_escape text
  | _ => rfl

/-! ## Pages -/

/-- The text of a page: an element with its number around the texts of its events. -/
def pageText (number : Nat) (events : List Event) : String :=
  "<page id=\"" ++ toString number ++ "\">" ++
    String.join (events.map fun e => e.payload.tagText) ++ "</page>\n"

/-- **Angle brackets** come from the page and from marked content, and from nowhere else. -/
theorem count_lt_pageText (number : Nat) (events : List Event) :
    (pageText number events).toList.count '<' =
      2 + events.countP fun e => e.payload.isMarked := by
  have hbody : (String.join (events.map fun e => e.payload.tagText)).toList.count '<' =
      events.countP fun e => e.payload.isMarked := by
    induction events with
    | nil => rfl
    | cons e rest ih =>
      rw [List.map_cons, String.join_cons, String.toList_append, List.count_append, ih,
        count_lt_tagText, List.countP_cons, Nat.add_comm]
  have hopening : "<page id=\"".toList.count '<' = 1 := rfl
  have hend : "\">".toList.count '<' = 0 := rfl
  have hclosing : "</page>\n".toList.count '<' = 1 := rfl
  simp only [pageText, String.toList_append, List.count_append, hopening, hend, hclosing,
    count_lt_toString, hbody]
  omega

/-- **One event.** The writer goes along with a reader of brackets, and writes the text of the event. -/
theorem event_of_reads {w : TagWriter} {payload : EventPayload} {word : List (Bracket String)}
    {stack : List String} (h : Reads w.openTags (payload.tagBracket?.toList ++ word) stack) :
    ∃ openTags, w.event payload = { w.write payload.tagText with openTags } ∧
      Reads openTags word stack := by
  have hnothing : { w.write "" with openTags := w.openTags } = w := by simp [write]
  generalize hopen : w.openTags = before at h
  cases payload with
  | sectionBegin label =>
    cases h with
    | opening hrest => exact ⟨_, by rw [event, hopen]; rfl, hrest⟩
  | sectionEnd label =>
    -- The tag on the stack is that of the event, or the event could not be read.
    cases h with
    | closing hrest => exact ⟨_, by simp only [event, hopen, EventPayload.tagText], hrest⟩
  | sectionPoint label => exact ⟨w.openTags, rfl, hopen ▸ h⟩
  | glyph info =>
    refine ⟨w.openTags, ?_, hopen ▸ h⟩
    simp only [event, EventPayload.tagText]
    cases info.text with
    | none => exact hnothing.symm
    | some text => rfl
  | _ => exact ⟨w.openTags, hnothing.symm, hopen ▸ h⟩

/-- **All events of a page.** The induction is on the events, with the stack as it is before them. -/
theorem writeEvents_eq {events : List Event} {w : TagWriter} {stack : List String}
    (h : Reads w.openTags (events.filterMap Event.tagBracket?) stack) :
    w.writeEvents events =
      { w.write (String.join (events.map fun e => e.payload.tagText)) with openTags := stack } := by
  unfold writeEvents
  induction events generalizing w with
  | nil =>
    generalize hopen : w.openTags = openTags at h
    cases h
    simp [write, ← hopen]
  | cons e rest ih =>
    rw [Processor.filterMap_cons_eq] at h
    obtain ⟨openTags, hevent, hrest⟩ := event_of_reads h
    rw [List.foldl_cons, hevent, ih hrest, List.map_cons, String.join_cons]
    simp only [write, String.append_assoc]

end TagWriter

/-- The run of a page came to an end, and the sections of the page nest. -/
structure Recording.Whole (page : Recording) : Prop where
  ended : page.outcome.status ≠ .broken
  reads : Reads [] (page.events.filterMap Event.tagBracket?) []

namespace TagWriter

theorem writePage_eq {w : TagWriter} {page : Recording} (hopen : w.openTags = [])
    (h : page.Whole) :
    w.writePage page =
      { output := w.output ++ pageText w.page.toNat page.events, page := w.page + 1, openTags := [] } := by
  have hbegin : Reads w.beginPage.openTags (page.events.filterMap Event.tagBracket?) [] :=
    hopen ▸ h.reads
  have hnumber : toString w.page = toString w.page.toNat := rfl
  rw [writePage, writeEvents_eq hbegin, if_neg h.ended]
  simp [endPage, beginPage, write, pageText, hnumber, String.append_assoc]

/-- **All pages.** Each finds nothing open, and leaves nothing open. -/
theorem writePages_eq {w : TagWriter} {pages : List Recording} (hopen : w.openTags = [])
    (hcount : w.page.toNat + pages.length < UInt32.size) (h : ∀ page ∈ pages, page.Whole) :
    (w.writePages pages).output =
        w.output ++ String.join (pages.mapIdx fun k page => pageText (w.page.toNat + k) page.events) ∧
      (w.writePages pages).page.toNat = w.page.toNat + pages.length ∧
      (w.writePages pages).openTags = [] := by
  induction pages generalizing w with
  | nil => exact ⟨by simp [writePages], rfl, hopen⟩
  | cons page rest ih =>
    rw [List.length_cons] at hcount
    have hfirst := writePage_eq hopen (h page List.mem_cons_self)
    have hnumber : (w.page + 1).toNat = w.page.toNat + 1 := by
      rw [UInt32.toNat_add]
      exact Nat.mod_eq_of_lt (Nat.lt_of_le_of_lt (by simp) hcount)
    obtain ⟨houtput, hpage, hrest⟩ := ih (w := w.writePage page) (by rw [hfirst])
      (by rw [hfirst, hnumber]; omega) fun later hlater => h later (List.mem_cons_of_mem _ hlater)
    rw [hfirst, hnumber] at hpage houtput
    refine ⟨?_, ?_, hrest⟩
    · rw [writePages, List.foldl_cons, ← writePages, hfirst, houtput]
      simp [List.mapIdx_cons, String.append_assoc, Nat.add_assoc, Nat.add_comm 1]
    · rw [writePages, List.foldl_cons, ← writePages, hfirst, hpage, List.length_cons]
      omega

end TagWriter

/-! ## Runs -/

/-- A page, and all that its run is given. -/
structure PageRun where
  setting : Setting
  cancelIn : Option Nat := none
  page : Page

namespace PageRun

/-- Runs the page with a processor of its own, and keeps everything that the run gave. -/
def record (run : PageRun) : Except Error Recording :=
  ((Processor.start run.setting run.cancelIn).process run.setting run.page.segments
    run.page.resources).map fun ran =>
      { events := ran.2.events, diagnostics := ran.2.diagnostics, outcome := ran.1 }

/-- A page is whole if only its run does not break down. -/
theorem record_whole (run : PageRun) :
    ∃ page, run.record = .ok page ∧ (page.outcome.status ≠ .broken → page.Whole) := by
  obtain ⟨s, cancelIn, segments, resources⟩ := run
  refine ⟨_, rfl, fun hended => ⟨hended, ?_⟩⟩
  obtain ⟨w, hbrackets, hw⟩ := Processor.execute_wellBracketed
    (Processor.runner_steps s s.config.maxDepth) (Processor.beginPage s cancelIn resources)
    (Content.items segments)
  have htags := (hw.reads []).filterMap fun label => label.2.tag?
  -- Nothing was told before the run, and all that was told was heard.
  rw [show w = _ from hbrackets.symm, Processor.brackets, List.filterMap_filterMap,
    funext Event.tagBracket?_eq] at htags
  rw [Processor.ended_of_not_broken (Processor.broken_eq_false hended)]
  exact htags

theorem mapM_record (runs : List PageRun) :
    ∃ recordings, runs.mapM record = .ok recordings ∧ recordings.length = runs.length ∧
      ∀ page ∈ recordings, page.outcome.status ≠ .broken → page.Whole := by
  induction runs with
  | nil => exact ⟨[], rfl, rfl, by simp⟩
  | cons run rest ih =>
    obtain ⟨first, hfirst, hwhole⟩ := run.record_whole
    obtain ⟨later, hlater, hlength, hall⟩ := ih
    refine ⟨first :: later, ?_, congrArg Nat.succ hlength, List.forall_mem_cons.2 ⟨hwhole, hall⟩⟩
    rw [List.mapM_cons, hfirst, hlater]
    rfl

end PageRun

/-- **Tagged text.** Pages that are run one after the other give recordings. If none of the runs broke
down, what one writer makes of them is the texts of the pages, numbered from zero. For each page up to
which no run broke down, the writer has nothing open when the run is over, the sections nest with one
tag at both ends, and there are as many `<` as events of marked content, and two more. -/
theorem writePages_tagged (runs : List PageRun) (hcount : runs.length < UInt32.size) :
    ∃ recordings, runs.mapM PageRun.record = .ok recordings ∧
      ((∀ page ∈ recordings, page.outcome.status ≠ .broken) →
        (TagWriter.writePages {} recordings).output =
          String.join (recordings.mapIdx fun k page => TagWriter.pageText k page.events)) ∧
      ∀ before page after, recordings = before ++ page :: after →
        (∀ earlier ∈ before, earlier.outcome.status ≠ .broken) → page.outcome.status ≠ .broken →
          (TagWriter.writePages {} (before ++ [page])).output =
            (TagWriter.writePages {} before).output ++ TagWriter.pageText before.length page.events ∧
          ((TagWriter.writePages {} before).beginPage.writeEvents page.events).openTags = [] ∧
          WellBracketed (page.events.filterMap Event.tagBracket?) ∧
          (TagWriter.pageText before.length page.events).toList.count '<' =
            2 + page.events.countP fun e => e.payload.isMarked := by
  obtain ⟨recordings, hrecordings, hlength, hwhole⟩ := PageRun.mapM_record runs
  rw [← hlength] at hcount
  refine ⟨recordings, hrecordings, fun hended => ?_, fun before page after hsplit hbefore hpage => ?_⟩
  · have hpages : ∀ page ∈ recordings, page.Whole :=
      fun page hmem => hwhole page hmem (hended page hmem)
    obtain ⟨houtput, -, -⟩ :=
      TagWriter.writePages_eq (w := {}) rfl ((Nat.zero_add _).symm ▸ hcount) hpages
    simpa using houtput
  · subst hsplit
    obtain ⟨hwholeBefore, hwholeRest⟩ := List.forall_mem_append.1 hwhole
    have hpages : ∀ earlier ∈ before, earlier.Whole :=
      fun earlier hmem => hwholeBefore earlier hmem (hbefore earlier hmem)
    have hlast : page.Whole := (List.forall_mem_cons.1 hwholeRest).1 hpage
    have hroom : ({} : TagWriter).page.toNat + before.length < UInt32.size := by
      rw [List.length_append] at hcount
      exact Nat.lt_of_le_of_lt (by simp) hcount
    obtain ⟨-, hnumber, hopen⟩ := TagWriter.writePages_eq rfl hroom hpages
    have hread : Reads (TagWriter.writePages {} before).beginPage.openTags
        (page.events.filterMap Event.tagBracket?) [] := by
      rw [show (TagWriter.writePages {} before).beginPage.openTags = [] from hopen]
      exact hlast.reads
    refine ⟨?_, ?_, wellBracketed_of_reads hlast.reads, TagWriter.count_lt_pageText _ _⟩
    · rw [TagWriter.writePages, List.foldl_append, ← TagWriter.writePages]
      show ((TagWriter.writePages {} before).writePage page).output = _
      rw [TagWriter.writePage_eq hopen hlast, hnumber]
      simp
    · rw [TagWriter.writeEvents_eq hread]

/-- The page `/P BMC EMC`, and an empty one. -/
theorem writePages_tagged_two_pages :
    let runs : List PageRun :=
      [⟨{}, none, [[47, 80, 32, 66, 77, 67, 32, 69, 77, 67]], []⟩, ⟨{}, none, [], []⟩]
    runs.length < UInt32.size ∧ ∃ recordings, runs.mapM PageRun.record = .ok recordings ∧
      (∀ page ∈ recordings, page.outcome.status ≠ .broken) ∧
      (TagWriter.writePages {} recordings).output =
        String.join (recordings.mapIdx fun k page => TagWriter.pageText k page.events) := by
  intro runs
  have hcount : runs.length < UInt32.size := by decide
  obtain ⟨recordings, hrecordings, houtput, -⟩ := writePages_tagged runs hcount
  have hended : ∀ page ∈ recordings, page.outcome.status ≠ .broken := by
    have hall : ((runs.mapM PageRun.record).toOption.all fun pages =>
        pages.all fun page => page.outcome.status ≠ .broken) = true := by decide +kernel
    rw [hrecordings] at hall
    simpa [Except.toOption] using hall
  exact ⟨hcount, recordings, hrecordings, hended, houtput hended⟩

/-- **A page without an end.** On `/P BMC BI /L 0 ID` the run breaks down over the data of the image. The
page has a beginning and the tag that was opened, and neither is closed. -/
theorem writePages_broken :
    (PageRun.record ⟨{}, none, [[47, 80, 32, 66, 77, 67, 32, 66, 73, 32, 47, 76, 32, 48, 32, 73, 68]],
      []⟩).toOption.map (fun page => (TagWriter.writePages {} [page]).output) =
        some "<page id=\"0\"><P>" := by
  decide +kernel

end ContentStream
