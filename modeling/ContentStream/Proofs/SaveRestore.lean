import ContentStream.Proofs.Isolation

/-!
# Saves and restores match like brackets

Within one stream the operators `q` and `Q`, where they stand without operands, are brackets. A `Q`
answers the latest `q` that is still open (`openSaves`).

**Theorem (`restore_answers_save`).** In any stream, whatever stands between, a `Q` that answers a `q`
puts the graphics state and the saved states back to what they were in front of that `q`. A `Q` that
answers none is reported, changes neither, and the stream goes on.

The invariant is `gstack_upTo`: above what the stream found on the stack lie the graphics states in
front of the open `q`s, latest on top. All other operators leave the stack alone (`Steps.gstack_eq`),
also those that run streams inside the stream, since these put it back (`nested_undisturbed`).
-/

namespace ContentStream

/-! ## The operators of a stream -/

/-- The operands that wait behind an item, latest first. -/
def waiting (operands : List Object) (item : ItemAt) : List Object :=
  match item.2 with
  | .ok (.operand o) => o :: operands
  | .error _ => operands
  | _ => []

/-- The operator that an item calls, with its operands. -/
def ItemAt.call? (operands : List Object) (item : ItemAt) : Option (String × List Object) :=
  match item.2 with
  | .ok (.operator word) => some (word, operands.reverse)
  | _ => none

/-- The operator that stands behind the first `k` items, with its operands. -/
def callAt (items : List ItemAt) (k : Nat) : Option (String × List Object) :=
  items[k]?.bind (ItemAt.call? ((items.take k).foldl waiting []))

theorem exists_item_of_callAt {items : List ItemAt} {k : Nat} {word : String} {args : List Object}
    (h : callAt items k = some (word, args)) :
    ∃ pos, items[k]? = some (pos, .ok (.operator word)) ∧
      ((items.take k).foldl waiting []).reverse = args := by
  obtain ⟨⟨pos, item⟩, hitem, hcall⟩ := Option.bind_eq_some_iff.1 h
  unfold ItemAt.call? at hcall
  split at hcall
  · rename_i word' heq
    cases heq
    cases hcall
    exact ⟨pos, hitem, rfl⟩
  · cases hcall

/-- The saves among the first `k` items that no restore has answered. Each is given by the number of
the items in front of it, and the latest comes first. -/
def openSaves (items : List ItemAt) : (k : Nat) → List Nat
  | 0 => []
  | k + 1 =>
    match callAt items k with
    | some ("q", []) => k :: openSaves items k
    | some ("Q", []) => (openSaves items k).tail
    | _ => openSaves items k

theorem openSaves_of_save {items : List ItemAt} {k : Nat} (h : callAt items k = some ("q", [])) :
    openSaves items (k + 1) = k :: openSaves items k := by
  simp only [openSaves, h]

theorem openSaves_of_restore {items : List ItemAt} {k : Nat} (h : callAt items k = some ("Q", [])) :
    openSaves items (k + 1) = (openSaves items k).tail := by
  simp only [openSaves, h]

theorem openSaves_of_other {items : List ItemAt} {k : Nat} (hsave : callAt items k ≠ some ("q", []))
    (hrestore : callAt items k ≠ some ("Q", [])) : openSaves items (k + 1) = openSaves items k := by
  rw [openSaves]
  split
  · contradiction
  · contradiction
  · rfl

/-- In front of an open save exactly the saves were open that lie below it. -/
theorem openSaves_eq_cons {items : List ItemAt} {k j : Nat} {rest : List Nat}
    (h : openSaves items k = j :: rest) : j < k ∧ openSaves items j = rest := by
  induction k using Nat.strongRecOn generalizing j rest with
  | ind k ih =>
    cases k with
    | zero => cases h
    | succ k =>
      rw [openSaves] at h
      split at h
      · obtain ⟨rfl, rfl⟩ := List.cons.inj h
        exact ⟨Nat.lt_succ_self _, rfl⟩
      · -- The answered save lay on top of `j`, which was open in front of it.
        cases hopen : openSaves items k with
        | nil =>
          rw [hopen] at h
          cases h
        | cons i below =>
          rw [hopen] at h
          obtain ⟨hik, hi⟩ := ih k (Nat.lt_succ_self k) hopen
          obtain ⟨hji, hj⟩ := ih i (by omega) (hi.trans h)
          exact ⟨by omega, hj⟩
      · obtain ⟨hjk, hj⟩ := ih k (Nat.lt_succ_self k) h
        exact ⟨by omega, hj⟩

namespace Operator

theorem table_save : ∀ entry ∈ table, entry.2.1 = save → entry = ("q", save, .exact 0) := by
  decide

theorem table_restore : ∀ entry ∈ table, entry.2.1 = restore → entry = ("Q", restore, .exact 0) := by
  decide

/-- An operator that has one word and takes no operands is called by this word alone. -/
theorem call_of_only {op : Operator} {own word : String} {arity : Arity} {args : List Object}
    (honly : ∀ entry ∈ table, entry.2.1 = op → entry = (own, op, .exact 0))
    (hfind : find? word = some (op, arity)) (harity : arity.accepts args.length = true) :
    (word, args) = (own, []) := by
  cases honly _ (mem_table_of_find? hfind) rfl
  cases args with
  | nil => rfl
  | cons => cases harity

/-- Only the operators for it work on the saved graphics states. -/
theorem eq_save_or_restore {op : Operator} {args : Operands} {i : Instruction}
    (h : op.read args = .ok i) (hi : i.saves = true) : op = save ∨ op = restore := by
  have hop := mem_operators_of_read h
  cases i with
  | save => exact .inl (List.mem_singleton.1 hop)
  | restore => exact .inr (List.mem_singleton.1 hop)
  | _ => cases hi

end Operator

namespace Processor

variable {s : Setting} {n : Nat} {b : Bool} {p q : Processor} {nested : NestedRunner}

/-! ## A stream item by item -/

theorem poll_of_abort (h : p.abort.isSome = true) : p.poll s = p := by
  rw [poll, if_pos h]

/-- Whether the reader breaks down over the first item already. -/
def breaksAtOnce (items : List ItemAt) : Bool := items.head?.any ItemAt.breaksDown

theorem executeItems_of_breaksAtOnce {items : List ItemAt} (h : breaksAtOnce items = true)
    (operands : List Object) : executeItems s nested items operands p = p.breakDown := by
  cases items with
  | nil => cases h
  | cons item rest => exact if_pos h

/-- A run that has ended executes nothing more. All that can happen is that it breaks down over the
item it reads first. -/
theorem executeItems_of_abort (h : p.abort.isSome = true) (items : List ItemAt)
    (operands : List Object) :
    executeItems s nested items operands p = if breaksAtOnce items then p.breakDown else p := by
  cases items with
  | nil => rfl
  | cons item rest =>
    simp only [executeItems, poll_of_abort h, if_pos h]
    rfl

theorem abort_of_executeItems {items : List ItemAt} {operands : List Object}
    (h : (executeItems s nested items operands p).abort = none) : p.abort = none := by
  cases ha : p.abort with
  | none => rfl
  | some reason =>
    rw [executeItems_of_abort (by rw [ha]; rfl)] at h
    split at h
    · cases h
    · rw [ha] at h
      cases h

/-- **One item.** It ends the stream, or the stream goes on with the items behind it. -/
theorem executeItems_cons (s : Setting) (nested : NestedRunner) (item : ItemAt) (rest : List ItemAt)
    (operands : List Object) (p : Processor) :
    (executeItems s nested (item :: rest) operands p = executeItems s nested [item] operands p ∧
        (executeItems s nested [item] operands p).abort.isSome = true) ∨
      executeItems s nested (item :: rest) operands p =
        executeItems s nested rest (waiting operands item)
          (executeItems s nested [item] operands p) := by
  obtain ⟨pos, item⟩ := item
  simp only [executeItems]
  split
  · exact .inl ⟨rfl, rfl⟩
  · split
    · rename_i h
      exact .inl ⟨rfl, h⟩
    · split
      · exact .inr rfl
      · exact .inr rfl
      · exact .inr rfl
      · exact .inl ⟨rfl, rfl⟩
      · exact .inr rfl

theorem executeItems_cons_of_abort {item : ItemAt} {operands : List Object}
    (h : (executeItems s nested [item] operands p).abort = none) (rest : List ItemAt) :
    executeItems s nested (item :: rest) operands p =
      executeItems s nested rest (waiting operands item)
        (executeItems s nested [item] operands p) := by
  rcases executeItems_cons s nested item rest operands p with ⟨-, hstop⟩ | heq
  · rw [h] at hstop
    cases hstop
  · exact heq

/-- If a stream goes on, so it did behind each of its items. -/
theorem abort_of_executeItems_cons {item : ItemAt} {rest : List ItemAt} {operands : List Object}
    (h : (executeItems s nested (item :: rest) operands p).abort = none) :
    (executeItems s nested [item] operands p).abort = none := by
  rcases executeItems_cons s nested item rest operands p with ⟨heq, -⟩ | heq
  · rwa [heq] at h
  · rw [heq] at h
    exact abort_of_executeItems h

/-- Unless the run ends among the first items, those behind are executed from where it has come. -/
theorem executeItems_append {xs : List ItemAt} {operands : List Object}
    (h : (executeItems s nested xs operands p).abort = none) (ys : List ItemAt) :
    executeItems s nested (xs ++ ys) operands p =
      executeItems s nested ys (xs.foldl waiting operands) (executeItems s nested xs operands p) := by
  induction xs generalizing operands p with
  | nil => rfl
  | cons item rest ih =>
    have hcons := executeItems_cons_of_abort (abort_of_executeItems_cons h)
    rw [hcons] at h ⊢
    rw [List.cons_append, hcons, List.foldl_cons, ih h]

theorem abort_of_executeItems_append {xs ys : List ItemAt} {operands : List Object}
    (h : (executeItems s nested (xs ++ ys) operands p).abort = none) :
    (executeItems s nested xs operands p).abort = none := by
  induction xs generalizing operands p with
  | nil => exact abort_of_executeItems h
  | cons item rest ih =>
    have hcons := executeItems_cons_of_abort (abort_of_executeItems_cons h)
    rw [List.cons_append, hcons] at h
    rw [hcons]
    exact ih h

/-- The processor behind the first `k` items of a stream. -/
def upTo (s : Setting) (nested : NestedRunner) (items : List ItemAt) (p : Processor) (k : Nat) :
    Processor :=
  executeItems s nested (items.take k) [] p

theorem upTo_succ {items : List ItemAt} {k : Nat} {item : ItemAt} (h : items[k]? = some item)
    (hgo : (p.upTo s nested items k).abort = none) :
    p.upTo s nested items (k + 1) =
      executeItems s nested [item] ((items.take k).foldl waiting []) (p.upTo s nested items k) := by
  unfold upTo at hgo ⊢
  rw [List.take_add_one, h, Option.toList_some, executeItems_append hgo]

theorem upTo_abort_of_le {items : List ItemAt} {j k : Nat} (hjk : j ≤ k)
    (h : (p.upTo s nested items k).abort = none) : (p.upTo s nested items j).abort = none := by
  obtain ⟨i, rfl⟩ := Nat.exists_eq_add_of_le hjk
  rw [upTo, List.take_add] at h
  exact abort_of_executeItems_append h

theorem upTo_succ_of_none {items : List ItemAt} {k : Nat} (h : items[k]? = none) :
    p.upTo s nested items (k + 1) = p.upTo s nested items k := by
  unfold upTo
  rw [List.take_add_one, h, Option.toList_none, List.append_nil]

/-! ## Operators and the saved states -/

theorem Steps.gstack_eq (h : Steps s n b p q) (hb : b = false) : q.gstack = p.gstack := by
  induction h with
  | refl => rfl
  | step h => exact h.ground.2
  | save => cases hb
  | restore => cases hb
  | nested _ _ _ hsteps hopen => exact (nested_undisturbed hsteps.stays hopen).gstack
  | trans _ _ ih₁ ih₂ => exact (ih₂ hb).trans (ih₁ hb)

/-- Only `q` and `Q`, without operands, change the stack of saved states. -/
theorem executeWord_gstack (hn : Follows s n nested) (p : Processor) {word : String}
    {args : List Object} (hsave : (word, args) ≠ ("q", [])) (hrestore : (word, args) ≠ ("Q", [])) :
    (p.executeWord s nested word args).gstack = p.gstack := by
  refine Steps.gstack_eq (executeWord_steps (b := false) hn p word args ?_) rfl
  intro op arity i hop harity hread hsaves
  exfalso
  rcases Operator.eq_save_or_restore hread hsaves with rfl | rfl
  · exact hsave (Operator.call_of_only Operator.table_save hop harity)
  · exact hrestore (Operator.call_of_only Operator.table_restore hop harity)

theorem executeWord_save (p : Processor) : p.executeWord s nested "q" [] = p.save := rfl

theorem executeWord_restore (p : Processor) :
    p.executeWord s nested "Q" [] = settle p.pos "Q" p.restore := rfl

/-- The processor with which an operator is executed, once the run has got to it. -/
def arrive (s : Setting) (p : Processor) (pos : Nat) : Processor :=
  { p.poll s with pos := pos, executed := (p.poll s).executed + 1 }

/-- Whether the run executes an operator that comes next: it has not ended, is not cancelled here and
has operators left. -/
def GoesOn (s : Setting) (p : Processor) : Prop :=
  (p.poll s).abort = none ∧ p.exhausted s = false

theorem executeItems_singleton (s : Setting) (nested : NestedRunner) (p : Processor) (pos : Nat)
    (word : String) (operands : List Object) :
    executeItems s nested [(pos, .ok (.operator word))] operands p =
      if (p.poll s).abort.isSome then p.poll s
      else ({ p.poll s with pos := pos } : Processor).dispatch s nested word operands.reverse := rfl

theorem exhausted_poll (s : Setting) (p : Processor) (pos : Nat) :
    ({ p.poll s with pos := pos } : Processor).exhausted s = p.exhausted s := by
  rw [poll_eq]
  rfl

theorem executeItems_operator (h : p.GoesOn s) (pos : Nat) (word : String) (operands : List Object) :
    executeItems s nested [(pos, .ok (.operator word))] operands p =
      (p.arrive s pos).executeWord s nested word operands.reverse := by
  have hgo : ¬ (p.poll s).abort.isSome = true := by simp [h.1]
  have hroom : ¬ ({ p.poll s with pos := pos } : Processor).exhausted s = true := by
    simp [exhausted_poll, h.2]
  rw [executeItems_singleton, if_neg hgo, dispatch, if_neg hroom]
  rfl

theorem goesOn_of_abort {pos : Nat} {word : String} {operands : List Object}
    (h : (executeItems s nested [(pos, .ok (.operator word))] operands p).abort = none) :
    p.GoesOn s := by
  rw [executeItems_singleton] at h
  split at h
  · rename_i hstop
    rw [h] at hstop
    cases hstop
  · rename_i hgo
    refine ⟨by simpa using hgo, ?_⟩
    cases hroom : p.exhausted s with
    | false => rfl
    | true =>
      obtain ⟨limit, hl⟩ := exists_limit_of_exhausted hroom
      rw [dispatch, exhausted_poll, if_pos hroom, hl] at h
      cases h

theorem abort_of_poll (h : (p.poll s).abort = none) : p.abort = none := by
  cases ha : p.abort with
  | none => rfl
  | some reason =>
    rw [poll_of_abort (by rw [ha]; rfl), ha] at h
    cases h

/-- A part of the processor that is none of what every item changes: the place, and what is counted
and written down. -/
def IsAside {α : Type} (part : Processor → α) : Prop :=
  ∀ p pos executed abort looks log, part
    { p with pos := pos, executed := executed, abort := abort, looks := looks, log := log } = part p

section Aside

variable {α : Type} {part : Processor → α} (hpart : IsAside part)
include hpart

theorem IsAside.poll (p : Processor) : part (p.poll s) = part p := by
  unfold Processor.poll
  split
  · rfl
  · exact hpart ..

theorem IsAside.dispatch {word : String} {args : List Object}
    (hword : ∀ q : Processor, part (q.executeWord s nested word args) = part q) (p : Processor) :
    part (p.dispatch s nested word args) = part p := by
  unfold Processor.dispatch
  split
  · exact hpart ..
  · exact (hword _).trans (hpart ..)

/-- An item keeps such a part if the operator that it calls does. -/
theorem IsAside.executeItems {item : ItemAt} {operands : List Object}
    (hcall : ∀ word args, item.call? operands = some (word, args) →
      ∀ q : Processor, part (q.executeWord s nested word args) = part q)
    (himage : ∀ args, ∀ q : Processor, part (q.executeWord s nested "EI" args) = part q)
    (p : Processor) : part (Processor.executeItems s nested [item] operands p) = part p := by
  obtain ⟨pos, item⟩ := item
  have hplaced : part { p.poll s with pos := pos } = part p := (hpart ..).trans (hpart.poll p)
  simp only [Processor.executeItems]
  split
  · exact hpart ..
  · split
    · exact hpart.poll p
    · split
      · exact hplaced
      · exact (hpart.dispatch (hcall _ _ rfl) _).trans hplaced
      · refine Eq.trans ?_ hplaced
        unfold dispatchImage
        split
        · exact hpart.dispatch (himage _) _
        · exact hpart ..
      · exact (hpart ..).trans (hpart.poll p)
      · exact (hpart ..).trans hplaced

end Aside

/-- An item that is no `q` and no `Q` leaves the saved states alone. -/
theorem executeItems_gstack (hn : Follows s n nested) (p : Processor) {item : ItemAt}
    {operands : List Object} (hsave : item.call? operands ≠ some ("q", []))
    (hrestore : item.call? operands ≠ some ("Q", [])) :
    (executeItems s nested [item] operands p).gstack = p.gstack := by
  have hpart : IsAside gstack := fun _ _ _ _ _ _ => rfl
  refine hpart.executeItems ?_ ?_ p
  · intro word args hcall q
    rw [hcall] at hsave hrestore
    exact executeWord_gstack hn q (fun h => hsave (congrArg some h))
      (fun h => hrestore (congrArg some h))
  · exact fun args q => executeWord_gstack hn q (by simp) (by simp)

/-! ## The stack of saved states -/

section Stream

variable {items : List ItemAt} {k : Nat} {word : String} {args : List Object}

theorem upTo_call (hcall : callAt items k = some (word, args))
    (hgo : (p.upTo s nested items k).GoesOn s) :
    ∃ pos, items[k]? = some (pos, .ok (.operator word)) ∧
      p.upTo s nested items (k + 1) =
        ((p.upTo s nested items k).arrive s pos).executeWord s nested word args := by
  obtain ⟨pos, hitem, rfl⟩ := exists_item_of_callAt hcall
  exact ⟨pos, hitem, by rw [upTo_succ hitem (abort_of_poll hgo.1), executeItems_operator hgo]⟩

/-- An operator leaves no operands behind. -/
theorem upTo_drop (hcall : callAt items k = some (word, args))
    (hgo : (p.upTo s nested items (k + 1)).abort = none) :
    executeItems s nested items [] p =
      executeItems s nested (items.drop (k + 1)) [] (p.upTo s nested items (k + 1)) := by
  obtain ⟨pos, hitem, -⟩ := exists_item_of_callAt hcall
  have hwait : (items.take (k + 1)).foldl waiting [] = [] := by
    rw [List.take_add_one, hitem, Option.toList_some, List.foldl_append]
    rfl
  have happend := executeItems_append hgo (items.drop (k + 1))
  rwa [List.take_append_drop, hwait] at happend

theorem upTo_goesOn (hcall : callAt items k = some (word, args))
    (h : (p.upTo s nested items (k + 1)).abort = none) : (p.upTo s nested items k).GoesOn s := by
  obtain ⟨pos, hitem, -⟩ := exists_item_of_callAt hcall
  rw [upTo_succ hitem (upTo_abort_of_le (Nat.le_succ k) h)] at h
  exact goesOn_of_abort h

theorem upTo_gstack (hn : Follows s n nested) (hgo : (p.upTo s nested items k).abort = none)
    (hsave : callAt items k ≠ some ("q", [])) (hrestore : callAt items k ≠ some ("Q", [])) :
    (p.upTo s nested items (k + 1)).gstack = (p.upTo s nested items k).gstack := by
  cases hitem : items[k]? with
  | none => rw [upTo_succ_of_none hitem]
  | some item =>
    rw [upTo_succ hitem hgo]
    rw [callAt, hitem] at hsave hrestore
    exact executeItems_gstack hn _ hsave hrestore

theorem upTo_gstackFloor (hn : Follows s n nested) (items : List ItemAt) (p : Processor) (k : Nat) :
    (p.upTo s nested items k).gstackFloor = p.gstackFloor :=
  gstackFloor_eq (executeItems_steps hn (items.take k) [] p).stays.ground

theorem restore_of_lt {g : GraphicsState} {rest : List GraphicsState} (hg : p.gstack = g :: rest)
    (h : p.gstackFloor < p.gstack.length) :
    p.restore = .done { p with gstate := g, gstack := rest } := by
  rw [restore, if_neg (Nat.not_le.2 h), hg]

theorem restore_of_le (h : p.gstack.length ≤ p.gstackFloor) :
    p.restore = .failed p .unmatchedRestore := by
  rw [restore, if_pos h]

theorem arrive_same (s : Setting) (p : Processor) (pos : Nat) :
    (p.arrive s pos).gstate = p.gstate ∧ (p.arrive s pos).gstack = p.gstack ∧
      (p.arrive s pos).gstackFloor = p.gstackFloor ∧ (p.arrive s pos).depth = p.depth ∧
      (p.arrive s pos).log = p.log := by
  rw [arrive, poll_eq]
  exact ⟨rfl, rfl, rfl, rfl, rfl⟩

/-- A restore above the floor takes the state on top. -/
theorem upTo_restore {g : GraphicsState} {rest : List GraphicsState}
    (hcall : callAt items k = some ("Q", [])) (hgo : (p.upTo s nested items k).GoesOn s)
    (hg : (p.upTo s nested items k).gstack = g :: rest)
    (hfloor : (p.upTo s nested items k).gstackFloor < (p.upTo s nested items k).gstack.length) :
    (p.upTo s nested items (k + 1)).gstate = g ∧ (p.upTo s nested items (k + 1)).gstack = rest ∧
      (p.upTo s nested items (k + 1)).abort = none := by
  obtain ⟨pos, -, heq⟩ := upTo_call hcall hgo
  obtain ⟨-, hstack, hfl, -⟩ := arrive_same s (p.upTo s nested items k) pos
  rw [heq, executeWord_restore, restore_of_lt (hstack.trans hg) (by rw [hstack, hfl]; exact hfloor)]
  exact ⟨rfl, rfl, hgo.1⟩

/-- A restore at the floor is reported and does nothing. -/
theorem upTo_unmatched (hcall : callAt items k = some ("Q", []))
    (hgo : (p.upTo s nested items k).GoesOn s)
    (hfloor : (p.upTo s nested items k).gstack.length ≤ (p.upTo s nested items k).gstackFloor) :
    (p.upTo s nested items (k + 1)).gstate = (p.upTo s nested items k).gstate ∧
      (p.upTo s nested items (k + 1)).gstack = (p.upTo s nested items k).gstack ∧
      (p.upTo s nested items (k + 1)).abort = none ∧
      ∃ pos, items[k]? = some (pos, .ok (.operator "Q")) ∧
        (p.upTo s nested items (k + 1)).log =
          .diagnostic ⟨pos, (p.upTo s nested items k).depth, some "Q", .unmatchedRestore⟩ ::
            (p.upTo s nested items k).log := by
  obtain ⟨pos, hitem, heq⟩ := upTo_call hcall hgo
  obtain ⟨hstate, hstack, hfl, hdepth, hlog⟩ := arrive_same s (p.upTo s nested items k) pos
  rw [heq, executeWord_restore, restore_of_le (by rw [hstack, hfl]; exact hfloor)]
  refine ⟨hstate, hstack, hgo.1, pos, hitem, ?_⟩
  rw [← hdepth, ← hlog]
  rfl

/-- **The saved states.** As long as the run goes on, the states in front of the open saves lie above
what the stream found on the stack. -/
theorem gstack_upTo (hn : Follows s n nested) (hstart : p.gstackFloor = p.gstack.length)
    (h : (p.upTo s nested items k).abort = none) :
    (p.upTo s nested items k).gstack =
      (openSaves items k).map (fun j => (p.upTo s nested items j).gstate) ++ p.gstack := by
  induction k with
  | zero => rfl
  | succ k ih =>
    have hnow := upTo_abort_of_le (Nat.le_succ k) h
    specialize ih hnow
    by_cases hsave : callAt items k = some ("q", [])
    · obtain ⟨pos, -, heq⟩ := upTo_call hsave (upTo_goesOn hsave h)
      obtain ⟨hstate, hstack, -⟩ := arrive_same s (p.upTo s nested items k) pos
      rw [openSaves_of_save hsave, heq, executeWord_save, List.map_cons, List.cons_append, ← ih,
        ← hstate, ← hstack]
      rfl
    · by_cases hrestore : callAt items k = some ("Q", [])
      · have hgo := upTo_goesOn hrestore h
        have hfloor := upTo_gstackFloor hn items p k
        rw [openSaves_of_restore hrestore]
        cases hopen : openSaves items k with
        | nil =>
          rw [hopen, List.map_nil, List.nil_append] at ih
          rw [(upTo_unmatched hrestore hgo (Nat.le_of_eq (by rw [ih, hfloor, hstart]))).2.1, ih]
          rfl
        | cons j rest =>
          rw [hopen, List.map_cons, List.cons_append] at ih
          have hlt : (p.upTo s nested items k).gstackFloor <
              (p.upTo s nested items k).gstack.length := by
            rw [ih, hfloor, hstart, List.length_cons, List.length_append]
            omega
          rw [(upTo_restore hrestore hgo ih hlt).2.1]
          rfl
      · rw [openSaves_of_other hsave hrestore, upTo_gstack hn hnow hsave hrestore, ih]

/-! ## Brackets -/

/-- A stream starts with its floor at the height of the stack, the page as well as any stream inside
another. -/
def AtFloor (p : Processor) : Prop := p.gstackFloor = p.gstack.length

theorem atFloor_start (s : Setting) (cancelIn : Option Nat) : (start s cancelIn).AtFloor := rfl

theorem atFloor_beginNested (s : Setting) (p : Processor) (run : NestedRun) (clip : Option Path) :
    (p.beginNested s run clip).AtFloor := by
  show (p.enter s run clip).gstackFloor = (p.enter s run clip).gstack.length
  rw [enter_gstack]
  exact congrArg Ground.gstackFloor (enter_ground s p run clip)

/-- **Saves and restores.** A `Q` of a stream, executed behind the first `k` items, puts the graphics
state and the saved states back to what they were in front of the `q` it answers. If it answers none,
it is reported once and changes neither. In both cases the stream goes on with the items behind. -/
theorem restore_answers_save (s : Setting) (n : Nat) (items : List ItemAt) (p : Processor) (k : Nat)
    (hstart : p.AtFloor) (hcall : callAt items k = some ("Q", []))
    (hgo : (p.upTo s (runner s n) items k).GoesOn s) :
    (match openSaves items k with
      | j :: _ =>
        (p.upTo s (runner s n) items (k + 1)).gstate = (p.upTo s (runner s n) items j).gstate ∧
          (p.upTo s (runner s n) items (k + 1)).gstack = (p.upTo s (runner s n) items j).gstack
      | [] =>
        (p.upTo s (runner s n) items (k + 1)).gstate = (p.upTo s (runner s n) items k).gstate ∧
          (p.upTo s (runner s n) items (k + 1)).gstack = (p.upTo s (runner s n) items k).gstack ∧
          ∃ pos, items[k]? = some (pos, .ok (.operator "Q")) ∧
            (p.upTo s (runner s n) items (k + 1)).log =
              .diagnostic ⟨pos, (p.upTo s (runner s n) items k).depth, some "Q", .unmatchedRestore⟩ ::
                (p.upTo s (runner s n) items k).log) ∧
      (p.upTo s (runner s n) items (k + 1)).abort = none ∧
      executeItems s (runner s n) items [] p =
        executeItems s (runner s n) (items.drop (k + 1)) []
          (p.upTo s (runner s n) items (k + 1)) := by
  have hn := runner_steps s n
  have hnow : (p.upTo s (runner s n) items k).abort = none := abort_of_poll hgo.1
  have hstack := gstack_upTo hn hstart hnow
  have hfloor := upTo_gstackFloor hn items p k
  refine and_assoc.1 (and_iff_left_of_imp (fun h => upTo_drop hcall h.2) |>.2 ?_)
  cases hopen : openSaves items k with
  | nil =>
    rw [hopen, List.map_nil, List.nil_append] at hstack
    obtain ⟨hstate, hsaved, habort, hlog⟩ :=
      upTo_unmatched hcall hgo (Nat.le_of_eq (by rw [hstack, hfloor, hstart]))
    exact ⟨⟨hstate, hsaved, hlog⟩, habort⟩
  | cons j rest =>
    obtain ⟨hjk, hrest⟩ := openSaves_eq_cons hopen
    rw [hopen, List.map_cons, List.cons_append] at hstack
    have hlt : (p.upTo s (runner s n) items k).gstackFloor <
        (p.upTo s (runner s n) items k).gstack.length := by
      rw [hstack, hfloor, hstart, List.length_cons, List.length_append]
      omega
    obtain ⟨hstate, hsaved, habort⟩ := upTo_restore hcall hgo hstack hlt
    -- The run had not ended in front of the save either, so the invariant holds there.
    have hthen := gstack_upTo hn hstart (upTo_abort_of_le (Nat.le_of_lt hjk) hnow)
    exact ⟨⟨hstate, by rw [hsaved, hthen, hrest]⟩, habort⟩

/-- A stream that saves the graphics state, changes the line width and restores twice. -/
def widenedOnce : List ItemAt :=
  [(0, .ok (.operator "q")), (2, .ok (.operand (.number 0))), (4, .ok (.operator "w")),
    (6, .ok (.operator "Q")), (8, .ok (.operator "Q"))]

/-- On a page the first `Q` of that stream answers the `q`. In a glyph on the page the second one
answers none, although the state of the page lies below. -/
theorem restore_answers_save_widenedOnce :
    let run : NestedRun := { source := .glyph 0 0, data := [], ctm := .identity }
    let page := start {}
    let glyph := page.beginNested {} run none
    let onPage := page.upTo {} (runner {} 3) widenedOnce
    let inGlyph := glyph.upTo {} (runner {} 3) widenedOnce
    (openSaves widenedOnce 3 = [0] ∧ (onPage 3).gstate.lineWidth = 0 ∧
        (onPage 4).gstate = page.gstate ∧ (onPage 4).gstack = page.gstack) ∧
      openSaves widenedOnce 4 = [] ∧ (inGlyph 4).gstack = [page.gstate] ∧
        (inGlyph 5).gstate = (inGlyph 4).gstate ∧ (inGlyph 5).gstack = (inGlyph 4).gstack := by
  intro run page glyph onPage inGlyph
  have hfirst := restore_answers_save {} 3 widenedOnce page 3 (atFloor_start _ _) rfl ⟨rfl, rfl⟩
  have hsecond := restore_answers_save {} 3 widenedOnce glyph 4
    (atFloor_beginNested _ _ run none) rfl ⟨rfl, rfl⟩
  exact ⟨⟨rfl, rfl, hfirst.1⟩, rfl, rfl, hsecond.1.1, hsecond.1.2.1⟩

end Stream

end Processor

end ContentStream
