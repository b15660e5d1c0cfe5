import Overlay.Proofs.Engine.Rises

/-!
# Changes

An operation that changes a node counts a version for it and tells of it. While
listeners do nothing, the operation comes to its end in one way only, and has then
counted for everything that can be got at as many versions as there are routes from there
to the node (`rises_by_routes`).
-/

namespace Overlay.Engine

variable {V : Type} {engine before start middle after finish : Engine V} {id node : NodeId}
  {base : List (Frame V)}

-- ---------------------------------------------------------------------------
-- The start
-- ---------------------------------------------------------------------------

/-- A node has been changed, and the operation is about to tell of it. Whatever else it has yet to
do is of this kind. -/
structure Begins (before start : Engine V) (node : NodeId) (rest : List (Frame V)) : Prop where
  stack : start.stack = .tell node (start.forest.subscribers node) :: (rest ++ before.stack)
  version : ∀ id, start.forest.version id = before.forest.version id + if id = node then 1 else 0
  observers : ∀ observer id, .observer observer ∈ start.forest.subscribers id ↔
    .observer observer ∈ before.forest.subscribers id
  clear : start.Clear rest node
  rest : rest = [] ∨ (∃ id, rest = [.keep id]) ∨
    ∃ poller checkpoint changed, rest = [.settle poller checkpoint changed]

theorem begins_announce {forest : Forest} {rest : List (Frame V)}
    (hrevises : before.forest.Revises forest node) (hhas : before.forest.Has node)
    (hobservers : ∀ observer id, .observer observer ∈ forest.subscribers id ↔
      .observer observer ∈ before.forest.subscribers id)
    (hclear : ∀ held ∈ rest.flatMap before.frameNodes, ∀ top,
      Relation.TransGen forest.Holds top node → ¬ forest.Reaches held top)
    (hrest : rest = [] ∨ (∃ id, rest = [.keep id]) ∨
      ∃ poller checkpoint changed, rest = [.settle poller checkpoint changed]) :
    before.Begins ({ before with forest, stack := rest ++ before.stack }.announce node) node
      rest where
  stack := rfl
  version id := (hrevises.version id).trans (by simp [hhas])
  observers := hobservers
  clear held hheld := hclear held (by
    have hnodes : ({ before with forest, stack := rest ++ before.stack }.announce node).frameNodes =
      before.frameNodes := (frameNodes_congr rfl rfl).2
    rwa [hnodes] at hheld)
  rest := hrest

theorem begins_edit {forest : Forest} {edit : Edit} {rest : List (Frame V)}
    (hedit : before.forest.edit node edit = (true, forest))
    (hrest : rest = [] ∨ ∃ poller checkpoint changed, rest = [.settle poller checkpoint changed]) :
    before.Begins ({ before with forest, stack := rest ++ before.stack }.announce node) node
      rest := by
  have hflag : (before.forest.edit node edit).1 = true := by simp [hedit]
  have hforest : forest = (before.forest.edit node edit).2 := by simp [hedit]
  refine begins_announce (hforest ▸ Forest.revises_edit hflag) (Forest.has_of_edit hflag)
    (fun observer id => ?_) ?_ ?_
  · rw [hforest, Forest.subscribers_edit]
  · intro held hheld
    rcases hrest with rfl | ⟨_, _, _, rfl⟩ <;> simp [frameNodes] at hheld
  · rcases hrest with rfl | hsettle
    · exact .inl rfl
    · exact .inr (.inr hsettle)

theorem begins_attach {parent : NodeId} {place : Place} {name : String}
    (hhas : before.forest.Has parent) :
    before.Begins (before.attach parent place name node) parent [] := by
  refine begins_announce Forest.revises_attach hhas (fun observer id => ?_) (by simp) (.inl rfl)
  simp [Forest.mem_subscribers_attach]

theorem begins_detach {parent : NodeId} {name : String} {child : Child} {forest : Forest}
    (hacyclic : before.forest.Acyclic)
    (hdetach : before.forest.detach parent name = some (child, forest)) :
    before.Begins (({ before with forest }.push (.keep child.node)).changed parent) parent
      [.keep child.node] := by
  obtain ⟨hfind, hforest⟩ := Forest.detach_eq_some_iff.mp hdetach
  have hchild := List.mem_of_find?_eq_some hfind
  refine begins_announce (Forest.revises_detach hdetach) (Forest.has_of_mem_children hchild)
    (fun observer id => ?_) ?_ (.inr (.inl ⟨_, rfl⟩))
  · subst hforest
    simp [Forest.mem_subscribers_unsubscribe]
  · intro held hheld top htop hreach
    simp only [List.flatMap_cons, List.flatMap_nil, frameNodes, List.append_nil,
      List.mem_singleton] at hheld
    subst hheld
    -- the child lay below the composite, and nothing has been put below the child
    have hmono : ∀ holder held, (forest.bump parent).Holds holder held →
        before.forest.Holds holder held := by
      rintro holder _ ⟨entry, hentry, rfl⟩
      rw [Forest.children_bump] at hentry
      exact ⟨entry, (Forest.children_detach_sublist hdetach holder).subset hentry, rfl⟩
    have habove := Relation.TransGen.mono hmono _ _ htop
    have hbelow : before.forest.Reaches child.node top := 
      Relation.ReflTransGen.mono hmono _ _ hreach
    exact hacyclic parent (.head' ⟨child, hchild, rfl⟩ (hbelow.trans habove.to_reflTransGen))

/-- An edit that leaves other entries has changed the leaf. -/
theorem edit_eq_of_entries_ne {forest : Forest} {edit : Edit}
    (hne : (forest.edit node edit).2.entries node ≠ forest.entries node) :
    forest.edit node edit = (true, (forest.edit node edit).2) := by
  cases hchanged : (forest.edit node edit).1 with
  | true => exact Prod.ext hchanged rfl
  | false => exact absurd (by rw [Forest.edit_unchanged hchanged]) hne

theorem begins_of_entries_ne {edit : Edit}
    (hne : (before.edit node edit).2.forest.entries node ≠ before.forest.entries node) :
    before.Begins (before.edit node edit).2 node [] := by
  have hforest : (before.edit node edit).2.forest = (before.forest.edit node edit).2 := by
    rw [edit_snd]
    split <;> rfl
  have hedit := edit_eq_of_entries_ne (hforest ▸ hne)
  have hbegins := begins_edit hedit (.inl rfl)
  rw [edit_snd, if_pos (by rw [hedit])]
  exact hbegins

section
variable [BEq V]

/-- The operation changes the node: it puts a child into it or takes one out, or leaves a leaf with
other entries. -/
def Changes (engine : Engine V) (call : Call V) (node : NodeId) : Prop :=
  match call with
  | .attach parent _ _ _ => parent = node
  | .attachUnique parent name _ =>
    parent = node ∧ ∀ child ∈ engine.forest.children parent, child.name ≠ name
  | .detach parent name =>
    parent = node ∧ ∃ child ∈ engine.forest.children parent, child.name = name
  | _ => (engine.editOf? node call).isSome ∧
    (engine.start call).forest.entries node ≠ engine.forest.entries node

/-- A run from the start of an operation to its end, in which listeners do nothing. The `base` is
what lay on the stack before. -/
structure Completes (engine : Engine V) (base : List (Frame V)) (moves : List (Move V))
    (finish : Engine V) : Prop where
  play : engine.play? moves = some finish
  quiet : ∀ move ∈ moves, move.isCall = false
  above : engine.staysAbove base.length moves = true
  stack : finish.stack = base

/-- One operation ends on top of the work of another. -/
theorem Completes.trans {base' : List (Frame V)} {moves moves' : List (Move V)}
    (h : engine.Completes base' moves middle) (h' : middle.Completes base moves' finish)
    (hle : base.length ≤ base'.length) : engine.Completes base (moves ++ moves') finish where
  play := play?_append_eq_some.mpr ⟨middle, h.play, h'.play⟩
  quiet move hmem := (List.mem_append.mp hmem).elim (h.quiet move) (h'.quiet move)
  above := every_append_of h.play (every_mono (fun _ _ hlt => by
    simp only [decide_eq_true_eq] at hlt ⊢
    omega) h.above) h'.above
  stack := h'.stack

theorem Completes.cons {move : Move V} {moves : List (Move V)}
    (hmove : engine.move? move = some middle) (hcall : move.isCall = false)
    (hbusy : base.length < engine.stack.length) (h : middle.Completes base moves finish) :
    engine.Completes base (move :: moves) finish where
  play := play?_cons_eq_some.mpr ⟨middle, hmove, h.play⟩
  quiet other hmem := by
    rcases List.mem_cons.mp hmem with rfl | hmem
    · exact hcall
    · exact h.quiet other hmem
  above := (every_cons hmove).mpr ⟨by simpa using hbusy, h.above⟩
  stack := h.stack

-- ---------------------------------------------------------------------------
-- One way to the end
-- ---------------------------------------------------------------------------

/-- While an operation is in progress, there is one move but for what listeners start. -/
theorem move_unique {move other : Move V} {next : Engine V} (hbusy : before.stack ≠ [])
    (hmove : before.move? move = some after) (hother : before.move? other = some next)
    (hcall : move.isCall = false) (hcall' : other.isCall = false) : move = other := by
  obtain ⟨frame, rest, hstack⟩ := List.exists_cons_of_ne_nil hbusy
  have hidle : before.isIdle = false := by simp [isIdle, hstack]
  -- a step and a return exclude each other
  have hstep : before.callback?.isSome → before.step = none := by
    intro hcallback
    cases frame with
    | callback call => simp [step, hstack, run]
    | _ => simp [callback?, hstack] at hcallback
  cases move with
  | call call => simp [Move.isCall] at hcall
  | wake id => simp [move?, hidle] at hmove
  | step =>
    cases other with
    | call call => simp [Move.isCall] at hcall'
    | wake id => simp [move?, hidle] at hother
    | step => rfl
    | resume =>
      obtain ⟨hcallback, -⟩ := Option.ite_none_right_eq_some.mp hother
      simp [move?, hstep hcallback] at hmove
  | resume =>
    cases other with
    | call call => simp [Move.isCall] at hcall'
    | wake id => simp [move?, hidle] at hother
    | resume => rfl
    | step =>
      obtain ⟨hcallback, -⟩ := Option.ite_none_right_eq_some.mp hmove
      simp [move?, hstep hcallback] at hother

theorem Completes.busy {move : Move V} {rest : List (Move V)}
    (h : engine.Completes base (move :: rest) finish) : base.length < engine.stack.length := by
  obtain ⟨next, hnext, -⟩ := play?_cons_eq_some.mp h.play
  simpa using ((every_cons hnext).mp h.above).1

theorem Completes.tail {move : Move V} {rest : List (Move V)}
    (h : engine.Completes base (move :: rest) finish) :
    ∃ next, engine.move? move = some next ∧ next.Completes base rest finish := by
  obtain ⟨next, hnext, hrest⟩ := play?_cons_eq_some.mp h.play
  exact ⟨next, hnext, hrest, fun other hmem => h.quiet other (List.mem_cons_of_mem _ hmem),
    ((every_cons hnext).mp h.above).2, h.stack⟩

theorem Completes.unique {moves moves' : List (Move V)} {finish' : Engine V}
    (h : engine.Completes base moves finish) (h' : engine.Completes base moves' finish') :
    moves' = moves ∧ finish' = finish := by
  induction moves generalizing engine moves' with
  | nil =>
    obtain rfl := Option.some.inj h.play
    cases moves' with
    | nil => exact ⟨rfl, (Option.some.inj h'.play).symm⟩
    | cons move rest => exact absurd h'.busy (by simp [h.stack])
  | cons move rest ih =>
    have hbusy := h.busy
    cases moves' with
    | nil =>
      obtain rfl := Option.some.inj h'.play
      exact absurd hbusy (by simp [h'.stack])
    | cons other rest' =>
      obtain ⟨next, hnext, hrest⟩ := h.tail
      obtain ⟨next', hnext', hrest'⟩ := h'.tail
      have hne : engine.stack ≠ [] := by
        intro hnil
        simp [hnil] at hbusy
      obtain rfl := move_unique hne hnext hnext' (h.quiet _ List.mem_cons_self)
        (h'.quiet _ List.mem_cons_self)
      obtain rfl := Option.some.inj (hnext.symm.trans hnext')
      obtain ⟨rfl, rfl⟩ := ih hrest hrest'
      exact ⟨rfl, rfl⟩

-- ---------------------------------------------------------------------------
-- From start to end
-- ---------------------------------------------------------------------------

theorem begins_of_changes {call : Call V} (hmove : before.move? (.call call) = some start)
    (hchanges : before.Changes call node) (hacyclic : before.forest.Acyclic) :
    ∃ rest, before.Begins start node rest := by
  obtain ⟨⟨-, hallows⟩, hstart⟩ := Option.ite_none_right_eq_some.mp hmove
  obtain rfl := Option.some.inj hstart
  cases call with
  | attach parent place name child =>
    obtain rfl : parent = node := hchanges
    exact ⟨[], begins_attach (Forest.has_of_gone_eq_false hallows.2.1)⟩
  | attachUnique parent name child =>
    obtain ⟨rfl, hfree⟩ := hchanges
    have hnone : (before.forest.children parent).any (·.name = name) = false := by
      simpa using hfree
    refine ⟨[], ?_⟩
    simp only [Engine.start, attachUnique, hnone]
    exact begins_attach (Forest.has_of_gone_eq_false hallows.2.1)
  | detach parent name =>
    obtain ⟨rfl, entry, hentry, hname⟩ := hchanges
    obtain ⟨child, hfind⟩ :
        ∃ child, (before.forest.children parent).find? (·.name = name) = some child :=
      Option.isSome_iff_exists.mp (List.find?_isSome.mpr ⟨entry, hentry, decide_eq_true hname⟩)
    have hdetach := Forest.detach_eq_some_iff.mpr ⟨hfind, rfl⟩
    refine ⟨[.keep child.node], ?_⟩
    simp only [Engine.start, detach, hdetach]
    exact begins_detach hacyclic hdetach
  | edit leaf edit =>
    obtain ⟨hedit, hne⟩ := hchanges
    obtain rfl : leaf = node := by simpa [editOf?] using hedit
    exact ⟨[], begins_of_entries_ne hne⟩
  | absorb poller answer =>
    obtain ⟨hedit, hne⟩ := hchanges
    cases answer with
    | error error => simp [editOf?] at hedit
    | ok response =>
      cases hpoller : before.pollerAt? poller with
      | none => simp [editOf?, hpoller] at hedit
      | some found =>
        obtain rfl : found.target = node := by simpa [editOf?, hpoller] using hedit
        have hforest : (before.absorb poller (.ok response)).2.forest =
            (before.forest.edit found.target (.update response.content)).2 := by
          simp only [absorb, hpoller]
          split <;> rfl
        have hchanged := edit_eq_of_entries_ne (hforest ▸ hne)
        refine ⟨[.settle poller response.checkpoint true], ?_⟩
        simp only [Engine.start, absorb, hpoller]
        rw [hchanged]
        exact begins_edit hchanged (.inr ⟨_, _, _, rfl⟩)
  | reload leaf source file =>
    obtain ⟨hedit, hne⟩ := hchanges
    cases hfile : source.read file with
    | error error => simp [editOf?, hfile, Except.toOption] at hedit
    | ok entries =>
      obtain rfl : leaf = node := by simpa [editOf?, hfile, Except.toOption] using hedit
      refine ⟨[], ?_⟩
      simp only [Engine.start, reload, hfile] at hne ⊢
      exact begins_of_entries_ne hne
  | _ => simp [Changes, editOf?] at hchanges

/-- What an operation has yet to do when it has told of its change touches no node. -/
theorem rises_rest {rest : List (Frame V)} (hstack : before.stack = rest ++ base)
    (hrest : rest = [] ∨ (∃ id, rest = [.keep id]) ∨
      ∃ poller checkpoint changed, rest = [.settle poller checkpoint changed])
    (hstands : engine.Stands base before) :
    ∃ moves after, after.stack = base ∧ engine.Stands base after ∧
      Rises base.length (fun _ _ => 0) (fun _ => 0) before moves after := by
  have hheight {frame : Frame V} (hstack : before.stack = [frame] ++ base) :
      base.length < before.stack.length := by simp [hstack]
  rcases hrest with rfl | ⟨id, rfl⟩ | ⟨poller, checkpoint, changed, rfl⟩
  · exact ⟨[], before, hstack, hstands, rfl, by simp, rfl, by simp, by simp [notified, record]⟩
  · let popped := { before with stack := base }
    have hmove : before.move? .step = some popped := by simp [move?, step, hstack, run, popped]
    exact ⟨[.step], popped, rfl, hstands.congr rfl rfl rfl rfl,
      .single hmove rfl (hheight hstack) (fun _ => rfl) (by simp [notified?])⟩
  · let popped := { before with stack := base }
    have hmove : before.move? .step = some (popped.settle poller checkpoint changed) := by
      simp [move?, step, hstack, run, popped]
    refine ⟨[.step], popped.settle poller checkpoint changed, ?_, ?_,
      .single hmove rfl (hheight hstack) (fun id => ?_) (by simp [notified?])⟩
    · unfold settle
      split <;> rfl
    · refine hstands.congr ?_ ?_ ?_ ?_ <;> (unfold settle; split <;> rfl)
    · unfold settle
      split <;> rfl

/-- A change reaches whatever can be got at above the node once for each route to the node. The
operation ends, and in one way only as long as listeners do nothing. By then the node has one
version more, and any other node that can be got at one more for each route from it to the node; and
each observer has been called once for every version of the node that it follows. -/
theorem rises_by_routes {moves : List (Move V)} {call : Call V}
    (hplay : ({} : Engine V).play? moves = some before)
    (hmove : before.move? (.call call) = some start) (hchanges : before.Changes call node)
    (hbefore : before.forest.Acyclic) (hstart : start.forest.Acyclic) :
    ∃ work finish, start.Completes before.stack work finish ∧
      (∀ work' finish', start.Completes before.stack work' finish' →
        work' = work ∧ finish' = finish) ∧
      finish.forest.version node = before.forest.version node + 1 ∧
      (∀ id, id ≠ node → ∃ routes : List (List Nat), routes.Nodup ∧
        (∀ route, route ∈ routes ↔ finish.forest.follow id route = some node) ∧
        finish.forest.version id =
          before.forest.version id + if finish.isAlive id then routes.length else 0) ∧
      ∀ observer id, (start.notified work).count (observer, id) =
        if .observer observer ∈ before.forest.subscribers id then
          finish.forest.version id - before.forest.version id else 0 := by
  have hplayed : ({} : Engine V).play? (moves ++ [.call call]) = some start :=
    play?_concat hplay hmove
  have hlinked : start.forest.Linked := (keeps_of_play? hplayed sound_empty).sound.linked
  have htight : start.forest.Tight := tight_of_play? hplayed Forest.tight_empty
  have hdistinct : start.forest.Distinct := distinct_of_play? hplayed Forest.distinct_empty
  have hwithin := hstart.within node
  obtain ⟨rest, hbegins⟩ := begins_of_changes hmove hchanges hbefore
  obtain ⟨work, told, hstack, hstands, hrises⟩ := exists_rises hlinked htight hdistinct hstart
    hwithin (List.Subset.refl _) hbegins.clear (.refl start) hbegins.stack
  obtain ⟨work', finish, hstack', hstands', hrises'⟩ := rises_rest hstack hbegins.rest hstands
  have hall := hrises.trans hrises' hstands.subscribers (fun _ _ => rfl) fun _ => rfl
  have hcompletes : start.Completes before.stack (work ++ work') finish :=
    ⟨hall.play, hall.quiet, hall.above, hstack'⟩
  -- no way up leads back to the node
  have hself : start.risen before.stack ((start.forest.subscribers node).flatMap
      (start.forest.climb (start.forest.ascents start.forest.nodes.length))) node = 0 :=
    risen_self hlinked htight hstart _
  have hversion (id : NodeId) : finish.forest.version id = before.forest.version id +
      ((if id = node then 1 else 0) + start.risen before.stack
        ((start.forest.subscribers node).flatMap
          (start.forest.climb (start.forest.ascents start.forest.nodes.length))) id) := by
    rw [hall.version, hbegins.version, Nat.add_zero, Nat.add_assoc]
  refine ⟨work ++ work', finish, hcompletes, fun _ _ => hcompletes.unique, ?_, fun id hid => ?_,
    fun observer id => ?_⟩
  · simp [hversion, hself]
  · obtain ⟨routes, hnodup, hmem, hlen⟩ := Forest.exists_routes hlinked htight hdistinct hwithin id
    refine ⟨routes, hnodup, fun route => ?_, ?_⟩
    · rw [hmem, Forest.follow_congr fun id => Forest.children_congr (hstands'.face id)]
    · have halive : finish.isAlive id = { start with stack := before.stack }.isAlive id := by
        rw [← hstands'.alive, ← hstack']
      simp [hversion, hid, halive, risen, hlen, Forest.ascents, Ne.symm hid]
  · have hcount : (start.forest.subscribers node).count (.observer observer) =
        if .observer observer ∈ start.forest.subscribers node then 1 else 0 :=
      (hdistinct.subscribers node).count
    rw [hall.calls, hversion, Nat.add_sub_cancel_left]
    by_cases hid : id = node
    · subst hid
      simp [addressed, hcount, hself, hbegins.observers]
    · simp [addressed, hid, hbegins.observers]

end

/-- A leaf under two entries of a composite, and both of these under another one that is
observed. -/
def leafInTwo : List (Move Nat) :=
  [.call (.settable "leaf" .empty), .call (.composite "inner"), .call (.composite "outer"),
    .call (.hold [.node 0, .node 1, .node 2]),
    .call (.attach 1 .last "leaf" 0), .step, .call (.attach 1 .last "again" 0), .step,
    .call (.attach 2 .last "inner" 1), .step, .call (.attach 2 .first "leaf" 0), .step,
    .call (.observe 2 7)]

/-- The work of an edit of that leaf: its three entries are told, the first two on to the outer
composite, and the observer each time. -/
def workInTwo : List (Move Nat) :=
  [.step, .step, .step, .resume, .step, .step, .step, .step, .step, .resume, .step, .step, .step,
    .step, .resume, .step, .step]

theorem rises_by_routes_shared : ∃ before start finish : Engine Nat,
    ({} : Engine Nat).play? leafInTwo = some before ∧
      before.move? (.call (.edit 0 (.set "key" "one"))) = some start ∧
      before.Changes (.edit 0 (.set "key" "one")) 0 ∧
      before.forest.Acyclic ∧ start.forest.Acyclic ∧
      start.Completes before.stack workInTwo finish ∧
      finish.forest.version 2 = before.forest.version 2 + 3 ∧
      (start.notified workInTwo).count (7, 2) = 3 := by
  have hcalls {before start finish : Engine Nat}
      (hplay : ({} : Engine Nat).play? leafInTwo = some before)
      (hmove : before.move? (.call (.edit 0 (.set "key" "one"))) = some start)
      (hchanges : before.Changes (.edit 0 (.set "key" "one")) 0)
      (hbefore : before.forest.Acyclic) (hstart : start.forest.Acyclic)
      (hcompletes : start.Completes before.stack workInTwo finish)
      (hrise : finish.forest.version 2 - before.forest.version 2 = 3)
      (hobserved : .observer 7 ∈ before.forest.subscribers 2) :
      (start.notified workInTwo).count (7, 2) = 3 := by
    obtain ⟨work, _, -, hunique, -, -, hcalls⟩ :=
      rises_by_routes hplay hmove hchanges hbefore hstart
    obtain ⟨rfl, rfl⟩ := hunique _ _ hcompletes
    simpa [hobserved, hrise] using hcalls 7 2
  refine ⟨_, _, _, rfl, rfl, ⟨rfl, by decide⟩, Forest.acyclic_of_lt (by decide),
    Forest.acyclic_of_lt (by decide), ⟨rfl, by decide, by decide, rfl⟩, rfl, ?_⟩
  exact hcalls rfl rfl ⟨rfl, by decide⟩ (Forest.acyclic_of_lt (by decide))
    (Forest.acyclic_of_lt (by decide)) ⟨rfl, by decide, by decide, rfl⟩ rfl (by decide)

end Overlay.Engine
