import ContentStream.Proofs.ItemReader

/-!
# Items are few and in order

Items are asked for one by one. The reader answers with an item or says that there are no more.

**Theorem (`items_inOrder`).** Content of `N` bytes has at most `N + 1` items, none of them behind the
end. The offsets of its operands, operators and images grow strictly. What tells that the content
ends too early comes last. A malformed token is reported at its own offset, no operand holds a stream
or a reference, and `BI` is never an operator. Behind the items the reader says forever that there are
no more, but for one case: where it comes to the data of an image of length zero with nothing ahead, it
breaks down.

A container becomes an item when it is closed and has the offset where it was opened, so items come
later than the tokens they start with, and errors inside a container come in front of it. Two
facts about what is open keep the order all the same:

* *it began earlier* (`Fits`): every container and image that is open was opened at an offset behind
  the reader, and
* *it comes first* (`floor`): no operand, operator or image can stand in front of the outermost of them.

Each token gives at most one item more than it opens containers (`Advances.count`), which is why the
items are no more than the bytes and one.
-/

namespace ContentStream

/-! ## Parts of objects -/

namespace Object

/-- An object is a part of itself and of everything that holds it. -/
inductive Part (part : Object) : Object → Prop
  | self : Part part part
  | item {o : Object} {items : List Object} : o ∈ items → Part part o → Part part (.array items)
  | entry {e : String × Object} {entries : List (String × Object)} :
      e ∈ entries → Part part e.2 → Part part (.dict entries)
  | attr {e : String × Object} {attrs : List (String × Object)} {data : List UInt8} {serial : Nat} :
      e ∈ attrs → Part part e.2 → Part part (.stream attrs data serial)

/-- No part of the object is a stream or a reference. -/
def SelfContained (o : Object) : Prop :=
  ∀ part, Part part o → part.shape ≠ .stream ∧ part.shape ≠ .ref

theorem selfContained_array {items : List Object} (h : ∀ o ∈ items, o.SelfContained) :
    (array items).SelfContained := by
  intro part hpart
  cases hpart with
  | self => simp [shape]
  | item hmem hpart => exact h _ hmem part hpart

theorem selfContained_dict {entries : List (String × Object)}
    (h : ∀ e ∈ entries, e.2.SelfContained) : (dict entries).SelfContained := by
  intro part hpart
  cases hpart with
  | self => simp [shape]
  | entry hmem hpart => exact h _ hmem part hpart

theorem selfContained_leaf {o : Object} (hshape : o.shape ∉ [Shape.array, .dict, .stream, .ref]) :
    o.SelfContained := by
  intro part hpart
  cases hpart with
  | self => simp_all
  | item => simp [shape] at hshape
  | entry => simp [shape] at hshape
  | attr => simp [shape] at hshape

end Object

namespace Dict

theorem mem_insert {d : Dict} {key : String} {value : Object} {e : String × Object}
    (h : e ∈ insert d key value) : e ∈ d ∨ e.2 = value := by
  induction d with
  | nil =>
    obtain rfl := List.mem_singleton.1 h
    exact .inr rfl
  | cons first rest ih =>
    simp only [insert] at h
    split at h
    · rcases List.mem_cons.1 h with rfl | h
      · exact .inr rfl
      · exact .inl (List.mem_cons_of_mem _ h)
    · rcases List.mem_cons.1 h with rfl | h
      · exact .inl List.mem_cons_self
      · exact (ih h).imp_left (List.mem_cons_of_mem _)

/-- What a dictionary holds was among its entries. -/
theorem mem_ofEntries {entries : List (String × Object)} {e : String × Object}
    (h : e ∈ ofEntries entries) : ∃ e' ∈ entries, e.2 = e'.2 := by
  have hfold : ∀ d : Dict, e ∈ entries.foldl (fun d e => insert d e.1 e.2) d →
      e ∈ d ∨ ∃ e' ∈ entries, e.2 = e'.2 := by
    clear h
    induction entries with
    | nil => exact fun d h => .inl h
    | cons first rest ih =>
      intro d h
      rcases ih _ h with h | ⟨e', hmem, heq⟩
      · rcases mem_insert h with h | heq
        · exact .inl h
        · exact .inr ⟨first, List.mem_cons_self, heq⟩
      · exact .inr ⟨e', List.mem_cons_of_mem _ hmem, heq⟩
  exact (hfold [] h).resolve_left List.not_mem_nil

end Dict

theorem mem_pairEntries {values : List Object} {e : String × Object}
    (h : e ∈ (pairEntries values).1) : e.2 ∈ values := by
  fun_induction pairEntries values with
  | case1 => cases h
  | case2 => cases h
  | case3 k v rest ih =>
    rcases List.mem_cons.1 h with rfl | h
    · exact List.mem_cons_of_mem _ List.mem_cons_self
    · exact List.mem_cons_of_mem _ (List.mem_cons_of_mem _ (ih h))
  | case4 _ _ rest _ ih => exact List.mem_cons_of_mem _ (List.mem_cons_of_mem _ (ih h))

/-! ## Items -/

/-- What holds of each item of content that ends at `total`. -/
structure ItemAt.Proper (total : Nat) (item : ItemAt) : Prop where
  pos_le : item.1 ≤ total
  fault_pos : ∀ start fault, item.2 = .error (.malformedToken start fault) → start = item.1
  selfContained : ∀ value, item.2 = .ok (.operand value) → value.SelfContained
  not_begin : item.2 ≠ .ok (.operator "BI")

/-- Whether an item tells that the content ends too early, or that the reader breaks down. -/
def ItemAt.isFinal : ItemAt → Bool
  | (_, .error .truncated) | (_, .error .missingSegment) => true
  | _ => false

/-- The offsets of the operands, operators and images. -/
def Content.okOffsets (items : List ItemAt) : List Nat :=
  items.filterMap fun item => item.2.toOption.map fun _ => item.1

namespace ItemAt

variable {total pos : Nat}

theorem Proper.mono {item : ItemAt} (h : item.Proper pos) (hle : pos ≤ total) :
    item.Proper total :=
  { h with pos_le := Nat.le_trans h.pos_le hle }

theorem proper_malformed (h : pos ≤ total) (fault : TokenFault) :
    ItemAt.Proper total (pos, .error (.malformedToken pos fault)) where
  pos_le := h
  fault_pos := by
    intro start fault' heq
    cases heq
    rfl
  selfContained := by
    intro value heq
    cases heq
  not_begin := by simp

theorem proper_operand {value : Object} (h : pos ≤ total) (hvalue : value.SelfContained) :
    ItemAt.Proper total (pos, .ok (.operand value)) where
  pos_le := h
  fault_pos := by
    intro start fault heq
    cases heq
  selfContained := by
    intro value' heq
    cases heq
    exact hvalue
  not_begin := by simp

theorem proper_operator {name : String} (h : pos ≤ total) (hname : name ≠ "BI") :
    ItemAt.Proper total (pos, .ok (.operator name)) where
  pos_le := h
  fault_pos := by
    intro start fault heq
    cases heq
  selfContained := by
    intro value heq
    cases heq
  not_begin := by simpa using hname

theorem proper_image (h : pos ≤ total) (image : Stream) :
    ItemAt.Proper total (pos, .ok (.image image)) where
  pos_le := h
  fault_pos := by
    intro start fault heq
    cases heq
  selfContained := by
    intro value heq
    cases heq
  not_begin := by simp

theorem proper_fault (h : pos ≤ total) (fault : DataFault) :
    ItemAt.Proper total (pos, .error fault.error) where
  pos_le := h
  fault_pos := by
    intro start token heq
    cases fault <;> cases heq
  selfContained := by
    intro value heq
    cases heq
  not_begin := by simp

end ItemAt

namespace Builder

/-! ## What is open -/

/-- Where the open containers and the open image began, the innermost first. -/
def starts (b : Builder) : List Nat :=
  b.containers.map OpenContainer.start ++ (b.image.map OpenImage.start).toList

/-- The first offset at which an operand, an operator or an image can still stand. -/
def floor (b : Builder) (offset : Nat) : Nat := b.starts.getLast?.getD offset

/-- What is open when the reader is at an offset. -/
structure Fits (b : Builder) (offset : Nat) : Prop where
  before : ∀ start ∈ b.starts, start < offset
  held : ∀ c ∈ b.containers, ∀ o ∈ c.items, o.SelfContained

variable {b : Builder} {low room pos next start offset offset' : Nat}

theorem Fits.mono (h : b.Fits offset) (hle : offset ≤ offset') : b.Fits offset' :=
  { h with before := fun start hstart => Nat.lt_of_lt_of_le (h.before start hstart) hle }

theorem floor_mono (b : Builder) (hle : offset ≤ offset') : b.floor offset ≤ b.floor offset' := by
  unfold floor
  cases b.starts.getLast? with
  | none => exact hle
  | some start => exact Nat.le_refl start

theorem floor_of_starts (h : b.starts ≠ []) (offset offset' : Nat) :
    b.floor offset = b.floor offset' := by
  unfold floor
  rw [List.getLast?_eq_some_getLast h]
  rfl

/-- A value goes into what is open, or it is an item. -/
theorem place_cases (b : Builder) (start : Nat) (value : Object) :
    (b.starts ≠ [] ∧ (b.place start value).1.starts = b.starts ∧ (b.place start value).2 = []) ∨
      (b.starts = [] ∧ b.place start value = (b, [(start, .ok (.operand value))])) := by
  obtain ⟨containers, image⟩ := b
  cases containers with
  | cons c outer => exact .inl ⟨by simp [starts], rfl, rfl⟩
  | nil =>
    cases image with
    | some image => exact .inl ⟨by simp [starts], rfl, rfl⟩
    | none => exact .inr ⟨rfl, rfl⟩

theorem place_containers (b : Builder) (start : Nat) (value : Object) :
    (b.place start value).1.containers.length = b.containers.length := by
  unfold place
  split
  · simp_all
  · split <;> simp_all

theorem place_held {value : Object} (hvalue : value.SelfContained)
    (h : ∀ c ∈ b.containers, ∀ o ∈ c.items, o.SelfContained) :
    ∀ c ∈ (b.place start value).1.containers, ∀ o ∈ c.items, o.SelfContained := by
  obtain ⟨containers, image⟩ := b
  cases containers with
  | nil => cases image <;> simp [place]
  | cons c outer =>
    obtain ⟨hc, houter⟩ := List.forall_mem_cons.1 h
    exact List.forall_mem_cons.2 ⟨List.forall_mem_cons.2 ⟨hvalue, hc⟩, houter⟩

/-! ## One token -/

/-- What a step does that reads a token at `pos` and leaves the reader at `next`. `low` is the offset
in front of which nothing can stand, before the step, and `room` bounds what it gives and leaves
open. -/
structure Advances (low room pos next : Nat) (step : Builder × List ItemAt) : Prop where
  count : step.2.length + step.1.containers.length ≤ room
  fits : step.1.Fits next
  proper : ∀ item ∈ step.2, item.Proper pos
  notFinal : ∀ item ∈ step.2, item.isFinal = false
  low_le : low ≤ step.1.floor next
  offsets : Content.okOffsets step.2 = [] ∨
    ∃ p, Content.okOffsets step.2 = [p] ∧ low ≤ p ∧ p < step.1.floor next

/-- A step that gives nothing. -/
theorem advances_quiet (pos : Nat) (hb : b.Fits next) (hlow : low ≤ b.floor next) :
    Advances low b.containers.length pos next (b, []) where
  count := Nat.le_of_eq (Nat.zero_add _)
  fits := hb
  proper := by simp
  notFinal := by simp
  low_le := hlow
  offsets := .inl rfl

/-- A step that complains first. -/
theorem Advances.complain {step : Builder × List ItemAt} (h : Advances low room pos next step)
    (hstart : start ≤ pos) (fault : TokenFault) :
    Advances low (room + 1) pos next
      (step.1, (start, .error (.malformedToken start fault)) :: step.2) where
  count := by
    have hcount := h.count
    simp only [List.length_cons]
    omega
  fits := h.fits
  proper := List.forall_mem_cons.2 ⟨ItemAt.proper_malformed hstart fault, h.proper⟩
  notFinal := List.forall_mem_cons.2 ⟨rfl, h.notFinal⟩
  low_le := h.low_le
  offsets := h.offsets

/-- A step that gives one item where nothing is open. -/
theorem advances_item {item : Item} (hb : b.Fits pos) (hempty : b.starts = [])
    (hstart : start ≤ pos) (hlow : low ≤ start) (hnext : pos < next)
    (hproper : ItemAt.Proper pos (start, .ok item)) :
    Advances low (b.containers.length + 1) pos next (b, [(start, .ok item)]) where
  count := Nat.le_of_eq (Nat.add_comm _ _)
  fits := hb.mono (Nat.le_of_lt hnext)
  proper := by simpa using hproper
  notFinal := by simp [ItemAt.isFinal]
  low_le := by
    simp only [floor, hempty, List.getLast?_nil, Option.getD_none]
    omega
  offsets := by
    refine .inr ⟨start, rfl, hlow, ?_⟩
    simp only [floor, hempty, List.getLast?_nil, Option.getD_none]
    omega

theorem place_advances {value : Object} (hb : b.Fits pos) (hvalue : value.SelfContained)
    (hstart : start ≤ pos) (hlow : low ≤ b.floor start) (hnext : pos < next) :
    Advances low (b.containers.length + 1) pos next (b.place start value) := by
  rcases place_cases b start value with ⟨hopen, hstarts, hout⟩ | ⟨hempty, hplace⟩
  · have hfits : (b.place start value).1.Fits next := by
      refine ⟨fun s hs => ?_, place_held hvalue hb.held⟩
      exact Nat.lt_trans (hb.before s (hstarts ▸ hs)) hnext
    have hfloor : low ≤ (b.place start value).1.floor next := by
      rw [floor, hstarts, ← floor, ← floor_of_starts hopen start next]
      exact hlow
    have hquiet := advances_quiet pos hfits hfloor
    rw [place_containers, ← hout] at hquiet
    exact { hquiet with count := Nat.le_succ_of_le hquiet.count }
  · rw [hplace]
    refine advances_item hb hempty hstart ?_ hnext (ItemAt.proper_operand hstart hvalue)
    simpa [floor, hempty] using hlow

theorem complain_advances (hb : b.Fits pos) (hnext : pos < next) (fault : TokenFault) :
    Advances (b.floor pos) (b.containers.length + 1) pos next (b.complain pos fault) :=
  (advances_quiet pos (hb.mono (Nat.le_of_lt hnext)) (floor_mono b (Nat.le_of_lt hnext))).complain
    (Nat.le_refl pos) fault

theorem openContainer_advances (hb : b.Fits pos) (hnext : pos < next) (kind : Container) :
    Advances (b.floor pos) (b.containers.length + 1) pos next (b.openContainer pos kind) := by
  have hstarts : (b.openContainer pos kind).1.starts = pos :: b.starts := rfl
  have hfits : (b.openContainer pos kind).1.Fits next := by
    refine ⟨?_, List.forall_mem_cons.2 ⟨by simp, hb.held⟩⟩
    rw [hstarts]
    exact List.forall_mem_cons.2 ⟨hnext, fun s hs => Nat.lt_trans (hb.before s hs) hnext⟩
  refine advances_quiet pos hfits (Nat.le_of_eq ?_)
  rw [floor, floor, hstarts, List.getLast?_cons]
  rfl

/-- Closing a container. It stands where it began, and so in front of everything that it held. -/
theorem finishContainer_advances {c : OpenContainer} {outer : List OpenContainer}
    (hb : b.Fits pos) (hcontainers : b.containers = c :: outer) (hnext : pos < next) :
    Advances (b.floor pos) (b.containers.length + 1) pos next
      (({ b with containers := outer } : Builder).finishContainer c) := by
  obtain ⟨containers, image⟩ := b
  cases hcontainers
  have hstarts : Builder.starts ⟨c :: outer, image⟩ = c.start :: Builder.starts ⟨outer, image⟩ := rfl
  obtain ⟨hbefore, hheld⟩ := hb
  rw [hstarts] at hbefore
  obtain ⟨hstart, hbefore⟩ := List.forall_mem_cons.1 hbefore
  obtain ⟨hitems, hheld⟩ := List.forall_mem_cons.1 hheld
  have hfloor : Builder.floor ⟨c :: outer, image⟩ pos = Builder.floor ⟨outer, image⟩ c.start := by
    rw [floor, floor, hstarts, List.getLast?_cons]
    rfl
  have hplace : ∀ {value : Object}, value.SelfContained →
      Advances (Builder.floor ⟨c :: outer, image⟩ pos) (outer.length + 1) pos next
        (Builder.place ⟨outer, image⟩ c.start value) := fun hvalue =>
    place_advances ⟨hbefore, hheld⟩ hvalue (Nat.le_of_lt hstart) (Nat.le_of_eq hfloor) hnext
  have hweaken : ∀ {step : Builder × List ItemAt},
      Advances (Builder.floor ⟨c :: outer, image⟩ pos) (outer.length + 1) pos next step →
      Advances (Builder.floor ⟨c :: outer, image⟩ pos) ((c :: outer).length + 1) pos next step :=
    fun h => { h with count := Nat.le_succ_of_le h.count }
  have harray : (Object.array c.items.reverse).SelfContained :=
    Object.selfContained_array fun o ho => hitems o (List.mem_reverse.1 ho)
  have hdict : (Object.dict (Dict.ofEntries (pairEntries c.items.reverse).1)).SelfContained := by
    refine Object.selfContained_dict fun e he => ?_
    obtain ⟨e', he', heq⟩ := Dict.mem_ofEntries he
    rw [heq]
    exact hitems _ (List.mem_reverse.1 (mem_pairEntries he'))
  unfold finishContainer
  cases c.kind with
  | array => exact hweaken (hplace harray)
  | proc => exact hweaken (hplace harray)
  | dict =>
    dsimp only
    split
    · exact (hplace hdict).complain (Nat.le_of_lt hstart) .keyNotName
    · exact hweaken (hplace hdict)

theorem close_advances (hb : b.Fits pos) (hnext : pos < next) (kind : Container) (mark : Mark) :
    Advances (b.floor pos) (b.containers.length + 1) pos next (b.close pos kind mark) := by
  unfold close
  split
  · rename_i c outer hcontainers
    split
    · exact finishContainer_advances hb hcontainers hnext
    · exact complain_advances hb hnext _
  · exact complain_advances hb hnext _

theorem mark_advances (hb : b.Fits pos) (hnext : pos < next) (m : Mark) :
    Advances (b.floor pos) (b.containers.length + 1) pos next (b.mark pos m) := by
  cases m with
  | arrayOpen | dictOpen | procOpen => exact openContainer_advances hb hnext _
  | arrayClose | dictClose | procClose => exact close_advances hb hnext _ _

theorem operator_advances (hb : b.Fits pos) (hnext : pos < next) (name : String) :
    Advances (b.floor pos) (b.containers.length + 1) pos next (b.operator pos name) := by
  obtain ⟨containers, image⟩ := b
  cases containers with
  | cons c outer =>
    by_cases hkind : c.kind = .proc
    · have hname : (Object.name name).SelfContained := Object.selfContained_leaf (by simp [Object.shape])
      simp only [operator, if_pos hkind]
      exact place_advances hb hname (Nat.le_refl pos) (Nat.le_refl _) hnext
    · simp only [operator, if_neg hkind]
      exact complain_advances hb hnext _
  | nil =>
    cases image with
    | some image => exact complain_advances hb hnext _
    | none =>
      by_cases hname : name = "BI"
      · -- The image that begins here is the outermost thing open.
        have hfits : Builder.Fits ⟨[], some { start := pos }⟩ next := ⟨by simpa [starts], by simp⟩
        have hquiet := advances_quiet pos hfits (Nat.le_refl _)
        simp only [operator, if_pos hname]
        exact { hquiet with count := Nat.zero_le _ }
      · simp only [operator, if_neg hname]
        exact advances_item hb rfl (Nat.le_refl pos) (Nat.le_refl pos) hnext
          (ItemAt.proper_operator (Nat.le_refl pos) hname)

/-- **One token.** -/
theorem token_advances (hb : b.Fits pos) (hnext : pos < next) (t : Token) :
    Advances (b.floor pos) (b.containers.length + 1) pos next (b.token pos t) := by
  have hplace : ∀ {value : Object}, value.SelfContained →
      Advances (b.floor pos) (b.containers.length + 1) pos next (b.place pos value) :=
    fun hvalue => place_advances hb hvalue (Nat.le_refl pos) (Nat.le_refl _) hnext
  cases t with
  | number | bool | null | string | name =>
    exact hplace (Object.selfContained_leaf (by simp [Object.shape]))
  | operator name => exact operator_advances hb hnext name
  | mark m => exact mark_advances hb hnext m

end Builder

/-! ## All of the content -/

namespace Content

/-- The items that are still to come where nothing can stand in front of `low`. -/
structure InOrder (low room total : Nat) (items : List ItemAt) : Prop where
  length_le : items.length ≤ room
  proper : ∀ item ∈ items, item.Proper total
  final_last : ∀ item ∈ items.dropLast, item.isFinal = false
  low_le : ∀ pos ∈ okOffsets items, low ≤ pos
  increasing : (okOffsets items).Pairwise (· < ·)

variable {low low' room room' pos next total : Nat} {items : List ItemAt}

theorem InOrder.mono (h : InOrder low room total items) (hlow : low' ≤ low) (hroom : room ≤ room') :
    InOrder low' room' total items where
  length_le := Nat.le_trans h.length_le hroom
  proper := h.proper
  final_last := h.final_last
  low_le := fun pos hpos => Nat.le_trans hlow (h.low_le pos hpos)
  increasing := h.increasing

/-- Content that ends too early. -/
theorem inOrder_final {e : Error} (h : ItemAt.Proper total (pos, .error e)) :
    InOrder low (room + 1) total [(pos, .error e)] where
  length_le := Nat.le_add_left 1 room
  proper := by simpa using h
  final_last := by simp
  low_le := by simp [okOffsets, Except.toOption]
  increasing := by simp [okOffsets, Except.toOption]

/-- What a step gives comes in front of all that comes later. -/
theorem InOrder.append {step : Builder × List ItemAt} (hstep : Builder.Advances low room pos next step)
    (h : InOrder (step.1.floor next) room' total items) (hpos : pos ≤ total) :
    InOrder low (step.2.length + room') total (step.2 ++ items) := by
  have hoffsets : okOffsets (step.2 ++ items) = okOffsets step.2 ++ okOffsets items :=
    List.filterMap_append ..
  refine ⟨?_, ?_, ?_, ?_, ?_⟩
  · rw [List.length_append]
    exact Nat.add_le_add_left h.length_le _
  · intro item hitem
    rcases List.mem_append.1 hitem with hitem | hitem
    · exact (hstep.proper item hitem).mono hpos
    · exact h.proper item hitem
  · intro item hitem
    rw [List.dropLast_append] at hitem
    split at hitem
    · exact hstep.notFinal item ((List.dropLast_sublist _).mem hitem)
    · rcases List.mem_append.1 hitem with hitem | hitem
      · exact hstep.notFinal item hitem
      · exact h.final_last item hitem
  · intro p hp
    rw [hoffsets, List.mem_append] at hp
    rcases hp with hp | hp
    · rcases hstep.offsets with hnone | ⟨q, hone, hlow, -⟩
      · simp [hnone] at hp
      · rw [hone, List.mem_singleton] at hp
        exact hp ▸ hlow
    · exact Nat.le_trans hstep.low_le (h.low_le p hp)
  · rw [hoffsets]
    rcases hstep.offsets with hnone | ⟨q, hone, -, hhigh⟩
    · rw [hnone]
      exact h.increasing
    · rw [hone]
      exact List.pairwise_cons.2
        ⟨fun p hp => Nat.lt_of_lt_of_le hhigh (h.low_le p hp), h.increasing⟩

end Content

namespace Builder

variable {b : Builder} {low room : Nat}

theorem finish_inOrder {total : Nat} (hb : b.Fits total) :
    Content.InOrder low (room + 1) total b.finish := by
  have hopen : ∀ {start : Nat}, start ∈ b.starts →
      Content.InOrder low (room + 1) total [(start, .error .truncated)] := fun hstart =>
    Content.inOrder_final (ItemAt.proper_fault (Nat.le_of_lt (hb.before _ hstart)) .truncated)
  unfold finish
  split
  · rename_i hlast
    exact hopen (List.mem_append_left _ (List.mem_map_of_mem (List.mem_of_getLast? hlast)))
  · rename_i himage
    exact hopen (List.mem_append_right _ (by simp [himage]))
  · exact ⟨Nat.zero_le _, by simp, by simp, by simp [Content.okOffsets], .nil⟩

/-- The image that ends with its data was the outermost thing open. -/
theorem floor_of_imageData? {t : Token} {image : OpenImage}
    (h : b.imageData? t = some image) :
    image.start ∈ b.starts ∧ ∀ offset, b.floor offset = image.start := by
  unfold imageData? at h
  split at h
  · split at h
    · rename_i hempty
      have hstarts : b.starts = [image.start] := by
        simp [starts, h, List.isEmpty_iff.1 hempty]
      exact ⟨by simp [hstarts], fun offset => by simp [floor, hstarts]⟩
    · cases h
  · cases h

end Builder

namespace Cursor

open Content (InOrder)

variable {c c' : Cursor} {pos : Nat}

theorem advance_total (c : Cursor) (n : Nat) : (c.advance n).total = c.total := by
  rw [total, total, advance_offset, advance_rest, List.length_drop]
  omega

/-- A token starts at the reader or behind it, and the reader moves past its start. -/
theorem token?_offsets {t : Except TokenError Token} (h : c.token? = (some (pos, t), c')) :
    c.offset ≤ pos ∧ pos < c'.offset ∧ c'.total = c.total := by
  have hskip : c.offset ≤ c.skipBlanks.offset := by
    rw [skipBlanks, advance_offset]
    exact Nat.le_add_right _ _
  have htotal : c.skipBlanks.total = c.total := advance_total c _
  unfold token? tokenHere? at h
  split at h
  · cases h
  · rename_i b rest hrest
    cases h
    refine ⟨hskip, ?_, (advance_total _ _).trans htotal⟩
    rw [advance_offset, hrest, List.length_cons]
    omega

theorem imageData_offsets {image : OpenImage} {data : Except DataFault (List UInt8)}
    (h : c.imageData image = (data, c')) : c.offset ≤ c'.offset ∧ c'.total = c.total := by
  obtain ⟨n, hn⟩ := inlineData_eq_advance c (InlineDict.dataLength? image.attrs)
    (InlineDict.dataMarker? image.attrs)
  rw [← imageData, h] at hn
  obtain rfl : c' = c.advance n := hn
  refine ⟨?_, advance_total c n⟩
  rw [advance_offset]
  exact Nat.le_add_right _ _

/-- **All items ahead.** The induction is on the bytes ahead. It needs that what is open began behind
the reader and holds no streams or references. -/
theorem items_inOrder_of_fits {b : Builder} (hb : b.Fits c.offset) :
    InOrder (b.floor c.offset) (c.rest.length + b.containers.length + 1) c.total (c.items b) := by
  induction c, b using items.induct with
  | case1 c b c' ht =>
    rw [items_end ht]
    exact Builder.finish_inOrder (hb.mono (Nat.le_add_right _ _))
  | case2 c b pos c' ht =>
    obtain ⟨-, -, htotal⟩ := token?_offsets ht
    rw [items_truncated ht]
    refine Content.inOrder_final (ItemAt.proper_fault ?_ .truncated)
    rw [← htotal]
    exact Nat.le_add_right _ _
  | case3 c b pos fault c' ht ih =>
    obtain ⟨hle, hlt, htotal⟩ := token?_offsets ht
    have hprogress := token?_progress ht
    have hbpos := hb.mono hle
    have hpos : pos ≤ c.total := by rw [← htotal, total]; omega
    have hrest := ih (hbpos.mono (Nat.le_of_lt hlt))
    rw [htotal] at hrest
    rw [items_malformed ht]
    have happend := hrest.append (Builder.complain_advances hbpos hlt fault) hpos
    refine happend.mono (b.floor_mono hle) ?_
    simp only [Builder.complain, List.length_singleton]
    omega
  | case4 c b pos token c' ht hdata ih =>
    obtain ⟨hle, hlt, htotal⟩ := token?_offsets ht
    have hprogress := token?_progress ht
    have hpos : pos ≤ c.total := by rw [← htotal, total]; omega
    have hstep := Builder.token_advances (hb.mono hle) hlt token
    have hrest := ih hstep.fits
    rw [htotal] at hrest
    rw [items_token ht hdata]
    refine (hrest.append hstep hpos).mono (b.floor_mono hle) ?_
    have hcount := hstep.count
    omega
  | case5 c b pos token c' ht image hdata fault c'' hd =>
    have hstart := hb.before _ (Builder.floor_of_imageData? hdata).1
    rw [items_image_cut ht hdata hd]
    exact Content.inOrder_final (ItemAt.proper_fault (by rw [total]; omega) fault)
  | case6 c b pos token c' ht image hdata data c'' hd ih =>
    obtain ⟨hle, hlt, htotal⟩ := token?_offsets ht
    obtain ⟨hle', htotal'⟩ := imageData_offsets hd
    obtain ⟨hstart, hfloor⟩ := Builder.floor_of_imageData? hdata
    have hprogress := token?_progress ht
    have hbefore : image.start < pos := Nat.lt_of_lt_of_le (hb.before _ hstart) hle
    have hpos : pos ≤ c.total := by rw [← htotal, total]; omega
    have hempty : ∀ offset, Builder.Fits {} offset := fun offset => ⟨by simp [Builder.starts], by simp⟩
    have hproper := ItemAt.proper_image (Nat.le_of_lt hbefore) ⟨image.attrs, data, 0⟩
    have hstep := Builder.advances_item (hempty pos) rfl (Nat.le_of_lt hbefore)
      (Nat.le_refl image.start) (Nat.lt_of_lt_of_le hlt hle') hproper
    have hrest := ih (hempty _)
    rw [htotal', htotal] at hrest
    rw [items_image ht hdata hd, hfloor]
    refine (hrest.append hstep hpos).mono (Nat.le_refl _) ?_
    simp only [total] at htotal htotal'
    simp only [List.length_singleton, List.length_nil]
    omega

end Cursor

/-! ## Asking for items -/

namespace Content

/-- What comes of asking for an item. -/
inductive Response where
  | item (found : ItemAt)
  | exhausted
  /-- The reader breaks down. It answers neither now nor later. -/
  | breakdown

/-- What comes of asking for an item when `k` times it has been asked before. -/
def respond (segments : List (List UInt8)) (k : Nat) : Response :=
  match (items segments)[k]? with
  | some item => if item.breaksDown then .breakdown else .item item
  | none => if (items segments).any ItemAt.breaksDown then .breakdown else .exhausted

/-- The items that the reader gives. -/
def given (segments : List (List UInt8)) : List ItemAt :=
  (items segments).takeWhile fun item => !item.breaksDown

variable {segments : List (List UInt8)}

theorem items_inOrder_total (segments : List (List UInt8)) :
    InOrder 0 (segments.flatten.length + 1) segments.flatten.length (items segments) := by
  have hempty : Builder.Fits {} 0 := ⟨by simp [Builder.starts], by simp⟩
  have h := Cursor.items_inOrder_of_fits (c := Cursor.ofSegments segments) hempty
  have htotal : (Cursor.ofSegments segments).total = segments.flatten.length := Nat.zero_add _
  rw [htotal] at h
  exact h

/-- A breakdown comes last. -/
theorem unbroken_dropLast (segments : List (List UInt8)) :
    ∀ item ∈ (items segments).dropLast, item.breaksDown = false := by
  intro item hitem
  have hfinal := (items_inOrder_total segments).final_last item hitem
  unfold ItemAt.isFinal at hfinal
  unfold ItemAt.breaksDown
  split at hfinal <;> simp_all

theorem given_of_unbroken (h : (items segments).any ItemAt.breaksDown = false) :
    given segments = items segments := by
  have hall : ∀ item ∈ items segments, (!item.breaksDown) = true := by
    intro item hitem
    simpa using List.any_eq_false.1 h item hitem
  have hwhole : (items segments ++ []).takeWhile _ = items segments ++ _ :=
    List.takeWhile_append_of_pos hall
  simpa [given] using hwhole

theorem given_of_broken (h : (items segments).any ItemAt.breaksDown = true) :
    ∃ last, last.breaksDown = true ∧ items segments = given segments ++ [last] := by
  have hfront := unbroken_dropLast segments
  unfold given
  rcases List.eq_nil_or_concat (items segments) with hnil | ⟨front, last, hitems⟩
  · rw [hnil] at h
    cases h
  · rw [List.concat_eq_append] at hitems
    rw [hitems, List.dropLast_concat] at hfront
    have hlast : last.breaksDown = true := by
      rw [hitems, List.any_append, List.any_eq_false.2 (by simpa using hfront)] at h
      simpa using h
    refine ⟨last, hlast, ?_⟩
    rw [hitems, List.takeWhile_append_of_pos (by simpa using hfront)]
    simp [hlast]

theorem unbroken_of_given {item : ItemAt} (h : item ∈ given segments) : item.breaksDown = false := by
  simpa using List.mem_takeWhile_imp h

theorem respond_of_unbroken (h : (items segments).any ItemAt.breaksDown = false) (k : Nat) :
    respond segments k = ((given segments)[k]?).elim .exhausted .item := by
  rw [respond, ← given_of_unbroken h]
  cases hk : (given segments)[k]? with
  | none => simp [given_of_unbroken h, h]
  | some item => simp [unbroken_of_given (List.mem_of_getElem? hk)]

theorem respond_of_broken (h : (items segments).any ItemAt.breaksDown = true) (k : Nat) :
    respond segments k = ((given segments)[k]?).elim .breakdown .item := by
  obtain ⟨last, hlast, hitems⟩ := given_of_broken h
  rw [respond, h, hitems, List.getElem?_append]
  by_cases hlt : k < (given segments).length
  · have hk := List.getElem?_eq_getElem hlt
    rw [if_pos hlt]
    simp [hk, unbroken_of_given (List.mem_of_getElem? hk)]
  · rw [if_neg hlt, List.getElem?_eq_none (Nat.not_lt.1 hlt)]
    cases k - (given segments).length with
    | zero => simp [hlast]
    | succ n => simp

/-- **Items in order.** The reader answers with the given items, one after the other. Of content with
`N` bytes there are `N + 1` at most. All are proper, what tells that the content ends too early comes
last, and operands, operators and images come in the order of their offsets. Behind them the reader is
exhausted forever, unless it comes to the data of an image that should have none, with nothing ahead:
there it breaks down. -/
theorem items_inOrder (segments : List (List UInt8)) :
    let lacksData := ∃ image last,
      (Cursor.ofSegments segments).ComesToData {} image last ∧ last.LacksData image
    (∀ k item, (given segments)[k]? = some item → respond segments k = .item item) ∧
      (∀ k, (given segments).length ≤ k →
        (¬ lacksData → respond segments k = .exhausted) ∧
        (lacksData → respond segments k = .breakdown)) ∧
      (given segments).length ≤ segments.flatten.length + 1 ∧
      (∀ item ∈ given segments, item.Proper segments.flatten.length) ∧
      (∀ item ∈ (given segments).dropLast, item.2 ≠ .error .truncated) ∧
      (okOffsets (given segments)).Pairwise (· < ·) := by
  intro lacksData
  have hlacks : (items segments).any ItemAt.breaksDown = true ↔ lacksData := Cursor.any_breaksDown_iff
  have hfront : given segments <+: items segments := List.takeWhile_prefix _
  have h := items_inOrder_total segments
  refine ⟨fun k item hk => ?_, fun k hk => ⟨fun hno => ?_, fun hyes => ?_⟩, ?_, ?_, ?_, ?_⟩
  · cases hbroken : (items segments).any ItemAt.breaksDown with
    | false => rw [respond_of_unbroken hbroken, hk, Option.elim_some]
    | true => rw [respond_of_broken hbroken, hk, Option.elim_some]
  · have hbroken : (items segments).any ItemAt.breaksDown = false :=
      Bool.eq_false_iff.2 fun hbroken => hno (hlacks.1 hbroken)
    rw [respond_of_unbroken hbroken, List.getElem?_eq_none hk, Option.elim_none]
  · rw [respond_of_broken (hlacks.2 hyes), List.getElem?_eq_none hk, Option.elim_none]
  · exact Nat.le_trans hfront.length_le h.length_le
  · exact fun item hitem => h.proper item (hfront.subset hitem)
  · rintro ⟨pos, found⟩ hitem rfl
    have hmem : (pos, .error .truncated) ∈ (items segments).dropLast := by
      obtain ⟨more, hmore⟩ := hfront
      rw [← hmore, List.dropLast_append]
      split
      · exact hitem
      · exact List.mem_append_left _ (List.dropLast_subset _ hitem)
    cases h.final_last _ hmem
  · obtain ⟨more, hmore⟩ := hfront
    have hincreasing := h.increasing
    rw [← hmore, okOffsets, List.filterMap_append] at hincreasing
    exact (List.pairwise_append.1 hincreasing).1

/-- **No item and no end.** Asked for the items of `BI /L 0 ID`, the reader breaks down at once. -/
theorem respond_empty_image_at_end :
    given [[66, 73, 32, 47, 76, 32, 48, 32, 73, 68]] = [] ∧
      ∀ k, respond [[66, 73, 32, 47, 76, 32, 48, 32, 73, 68]] k = .breakdown := by
  have hbroken : (items [[66, 73, 32, 47, 76, 32, 48, 32, 73, 68]]).any ItemAt.breaksDown = true := by
    decide +kernel
  have hnone : given [[66, 73, 32, 47, 76, 32, 48, 32, 73, 68]] = [] :=
    List.eq_nil_of_length_eq_zero (by decide +kernel)
  refine ⟨hnone, fun k => ?_⟩
  rw [respond_of_broken hbroken, hnone]
  rfl

end Content

end ContentStream
