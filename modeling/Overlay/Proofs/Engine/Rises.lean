import Overlay.Proofs.Engine.Order
import Overlay.Proofs.Engine.Tellings
import Overlay.Proofs.Forest.Ascents

/-!
# How far a change rises

While listeners do nothing, the telling of a changed node climbs to everything above
it: a composite is told through each of its links, counts a version, and passes the
word on before the next subscriber is told. So the versions that are counted are the
ways up from the node (`Forest.ascents`), but for those that end at what nobody can get
at any more (`exists_rises`).
-/

namespace Overlay.Engine

variable {V : Type} {engine before middle after finish : Engine V} {id node parent : NodeId}

-- ---------------------------------------------------------------------------
-- Links of a run
-- ---------------------------------------------------------------------------

theorem Piece.tight (h : before.Piece after) (hbefore : before.forest.Tight) :
    after.forest.Tight := by
  cases h with
  | plant hfresh => exact hbefore.plant hfresh.subscribers
  | subscribe hlink =>
    refine hbefore.subscribe ?_
    rintro parent link rfl
    simp [Subscriber.isLink] at hlink
  | unsubscribe _ => exact hbefore.unsubscribe
  | @edit id edit =>
    rw [edit_snd]
    split
    · exact hbefore.edit edit
    · exact hbefore.edit edit
  | attach hparent _ => exact (hbefore.attach (Forest.has_of_gone_eq_false hparent)).bump
  | detach hdetach => exact (hbefore.detach hdetach).bump
  | relay _ =>
    unfold tell
    dsimp only
    split
    · exact hbefore.prune _
    · exact (hbefore.prune _).bump
  | _ => exact hbefore

/-- What can still be got at. -/
def isAlive (engine : Engine V) (id : NodeId) : Bool :=
  !(engine.forest.prune engine.roots).gone id

theorem isAlive_iff : engine.isAlive id = true ↔
    engine.forest.gone id = false ∧ ∃ root ∈ engine.roots, engine.forest.Reaches root id := by
  rw [isAlive, Bool.not_eq_true', Forest.gone_prune]

/-- A composite that can be got at makes its children so. -/
theorem isAlive_of_reaches (hlinked : engine.forest.Linked) (hid : engine.isAlive id = true)
    (hreach : engine.forest.Reaches id node) : engine.isAlive node = true := by
  obtain ⟨hlive, root, hroot, habove⟩ := isAlive_iff.mp hid
  refine isAlive_iff.mpr ⟨?_, root, hroot, habove.trans hreach⟩
  clear habove
  induction hreach with
  | refl => exact hlive
  | tail _ hholds ih =>
    obtain ⟨child, hchild, rfl⟩ := hholds
    exact hlinked.live _ ih child hchild

-- ---------------------------------------------------------------------------
-- What stands while a change is told
-- ---------------------------------------------------------------------------

/-- Versions have been counted, and nobody can get at more or at less than before. The
`base` is the part of the stack that lies below the operation. -/
structure Stands (base : List (Frame V)) (before after : Engine V) : Prop where
  face : ∀ id, after.forest.face? id = before.forest.face? id
  subscribers : ∀ id, after.forest.subscribers id = before.forest.subscribers id
  anchors : after.anchors = before.anchors
  handles : after.handles = before.handles
  roots : after.registries.map (fun registry => (registry.root, registry.closed)) =
    before.registries.map (fun registry => (registry.root, registry.closed))
  alive : ∀ id, { after with stack := base }.isAlive id = { before with stack := base }.isAlive id

section
variable {base extra : List (Frame V)}

theorem Stands.refl (engine : Engine V) : engine.Stands base engine :=
  ⟨fun _ => rfl, fun _ => rfl, rfl, rfl, rfl, fun _ => rfl⟩

theorem Stands.trans (h : before.Stands base middle) (h' : middle.Stands base after) :
    before.Stands base after where
  face id := (h'.face id).trans (h.face id)
  subscribers id := (h'.subscribers id).trans (h.subscribers id)
  anchors := h'.anchors.trans h.anchors
  handles := h'.handles.trans h.handles
  roots := h'.roots.trans h.roots
  alive id := (h'.alive id).trans (h.alive id)

theorem Stands.holds (h : before.Stands base after) : after.forest.Holds = before.forest.Holds :=
  Forest.holds_congr fun id => Forest.children_congr (h.face id)

theorem Stands.reaches (h : before.Stands base after) :
    after.forest.Reaches = before.forest.Reaches :=
  congrArg Relation.ReflTransGen h.holds

/-- What a piece of work keeps alive does not depend on who follows whom. -/
theorem frameNodes_congr (hhandles : after.handles = before.handles)
    (hroots : after.registries.map (fun registry => (registry.root, registry.closed)) =
      before.registries.map (fun registry => (registry.root, registry.closed))) :
    after.anchorNodes = before.anchorNodes ∧ after.frameNodes = before.frameNodes := by
  have hroot : after.root = before.root := by
    funext handle
    have hregistry := congrArg (fun roots => (roots[handle.registry]?).map (·.1)) hroots
    simp only [List.getElem?_map, Option.map_map, Function.comp_def] at hregistry
    exact congrArg (Option.getD · 0) hregistry
  have hhandle : after.handleRoot = before.handleRoot := by
    funext id
    simp only [handleRoot, handleAt?, hhandles, hroot]
  constructor
  · funext anchor
    cases anchor <;> simp only [anchorNodes, hhandle]
  · funext frame
    cases frame with
    | callback call => cases call <;> simp only [frameNodes, hhandle]
    | _ => simp only [frameNodes, hhandle]

theorem roots_congr (hanchors : after.anchors = before.anchors)
    (hhandles : after.handles = before.handles)
    (hroots : after.registries.map (fun registry => (registry.root, registry.closed)) =
      before.registries.map (fun registry => (registry.root, registry.closed)))
    (hstack : after.stack = before.stack) : after.roots = before.roots := by
  obtain ⟨hanchorNodes, hframeNodes⟩ := frameNodes_congr hhandles hroots
  have hopen := congrArg (fun roots => (roots.filter (!·.2)).map (·.1)) hroots
  simp only [List.filter_map, List.map_map, Function.comp_def] at hopen
  simp only [roots, hanchors, hanchorNodes, hframeNodes, hstack, hopen]

/-- An operation that is in progress holds nodes in addition to what is held below it. -/
theorem mem_roots_append (hstack : engine.stack = extra ++ base) :
    id ∈ engine.roots ↔
      id ∈ extra.flatMap engine.frameNodes ∨ id ∈ { engine with stack := base }.roots := by
  obtain ⟨hanchorNodes, hframeNodes⟩ :
      { engine with stack := base }.anchorNodes = engine.anchorNodes ∧
        { engine with stack := base }.frameNodes = engine.frameNodes := frameNodes_congr rfl rfl
  simp only [roots, hstack, hanchorNodes, hframeNodes, List.flatMap_append, List.mem_append]
  tauto

/-- Nothing that the frames hold lies above what hears of the node. -/
def Clear (engine : Engine V) (extra : List (Frame V)) (node : NodeId) : Prop :=
  ∀ held ∈ extra.flatMap engine.frameNodes, ∀ top, Relation.TransGen engine.forest.Holds top node →
    ¬ engine.forest.Reaches held top

theorem Clear.above {rest : List Subscriber} (h : engine.Clear extra node)
    (hacyclic : engine.forest.Acyclic) (hholds : engine.forest.Holds parent node) :
    engine.Clear (.tell node rest :: extra) parent := by
  intro held hheld top htop hreach
  rw [List.flatMap_cons, List.mem_append] at hheld
  rcases hheld with hself | hheld
  · obtain rfl := List.mem_singleton.mp hself
    exact hacyclic top ((htop.tail hholds).trans_left hreach)
  · exact h held hheld top (htop.tail hholds) hreach

/-- A composite that hears of a node is dropped just when nobody below the operation
can get at it. -/
theorem Stands.gone_prune (h : before.Stands base after) (hstack : after.stack = extra ++ base)
    (hclear : ∀ held ∈ extra.flatMap before.frameNodes, ¬ before.forest.Reaches held parent) :
    (after.forest.prune after.roots).gone parent =
      !{ before with stack := base }.isAlive parent := by
  have hnodes := (frameNodes_congr h.handles h.roots).2
  have hiff : (after.forest.prune after.roots).gone parent = false ↔
      { before with stack := base }.isAlive parent = true := by
    rw [← h.alive, isAlive_iff, Forest.gone_prune]
    refine and_congr_right fun _ => ⟨?_, ?_⟩
    · rintro ⟨root, hroot, hreach⟩
      rcases (mem_roots_append hstack).mp hroot with hheld | hroot
      · exact absurd (h.reaches ▸ hreach) (hclear root (hnodes ▸ hheld))
      · exact ⟨root, hroot, hreach⟩
    · rintro ⟨root, hroot, hreach⟩
      exact ⟨root, (mem_roots_append hstack).mpr (.inr hroot), hreach⟩
  cases halive : { before with stack := base }.isAlive parent with
  | true => exact hiff.mpr halive
  | false => exact eq_true_of_ne_false fun hgone => by simp [hiff.mp hgone] at halive

theorem Stands.prune (h : before.Stands base after) (hstack : after.stack = extra ++ base) :
    before.Stands base { after with forest := after.forest.prune after.roots } := by
  have hholds : (after.forest.prune after.roots).Holds = after.forest.Holds :=
    Forest.holds_congr fun id => Forest.children_prune after.roots
  have hreaches : (after.forest.prune after.roots).Reaches = after.forest.Reaches :=
    congrArg Relation.ReflTransGen hholds
  refine ⟨fun id => (Forest.face?_prune _).trans (h.face id),
    fun id => (Forest.subscribers_prune _).trans (h.subscribers id), h.anchors, h.handles,
    h.roots, fun id => ?_⟩
  have hroots : { after with forest := after.forest.prune after.roots, stack := base }.roots =
      { after with stack := base }.roots := roots_congr rfl rfl rfl rfl
  rw [← h.alive, Bool.eq_iff_iff, isAlive_iff, isAlive_iff, hroots, hreaches, Forest.gone_prune,
    and_assoc]
  -- what is held below the operation is held during the operation
  refine and_congr_right fun _ => and_iff_right_of_imp ?_
  rintro ⟨root, hroot, hreach⟩
  exact ⟨root, (mem_roots_append hstack).mpr (.inr hroot), hreach⟩

theorem Stands.bump (h : before.Stands base after) (id : NodeId) :
    before.Stands base { after with forest := after.forest.bump id } := by
  have hholds : (after.forest.bump id).Holds = after.forest.Holds :=
    Forest.holds_congr fun _ => Forest.children_bump
  have hreaches : (after.forest.bump id).Reaches = after.forest.Reaches :=
    congrArg Relation.ReflTransGen hholds
  refine ⟨fun other => Forest.face?_bump.trans (h.face other),
    fun other => Forest.subscribers_bump.trans (h.subscribers other), h.anchors, h.handles,
    h.roots, fun other => ?_⟩
  have hroots : { after with forest := after.forest.bump id, stack := base }.roots =
      { after with stack := base }.roots := roots_congr rfl rfl rfl rfl
  rw [← h.alive, Bool.eq_iff_iff, isAlive_iff, isAlive_iff, hroots, hreaches, Forest.gone_bump]

/-- Where the forest is the same, and registries have been given work at most. -/
theorem Stands.congr (h : before.Stands base middle) (hforest : after.forest = middle.forest)
    (hanchors : after.anchors = middle.anchors) (hhandles : after.handles = middle.handles)
    (hroots : after.registries.map (fun registry => (registry.root, registry.closed)) =
      middle.registries.map (fun registry => (registry.root, registry.closed))) :
    before.Stands base after := by
  refine h.trans ⟨fun id => by rw [hforest], fun id => by rw [hforest], hanchors, hhandles, hroots,
    fun id => ?_⟩
  have hsame : { after with stack := base }.roots = { middle with stack := base }.roots :=
    roots_congr hanchors hhandles hroots rfl
  rw [isAlive, isAlive, hsame]
  simp only [hforest]

theorem Stands.enqueue (h : before.Stands base after) (id : RegistryId) (task : Task V) :
    before.Stands base (after.enqueue id task) := by
  refine h.congr rfl rfl rfl (List.ext_getElem? fun i => ?_)
  simp only [List.getElem?_map]
  exact map_getElem?_modify fun _ _ => rfl

-- ---------------------------------------------------------------------------
-- Versions counted on the way
-- ---------------------------------------------------------------------------

/-- The versions that these ways up have counted for a node. -/
def risen (engine : Engine V) (base : List (Frame V)) (ways : List (NodeId × List Nat))
    (id : NodeId) : Nat :=
  if { engine with stack := base }.isAlive id then ways.countP (·.1 = id) else 0

theorem risen_nil : engine.risen base [] = fun _ => 0 := by
  funext id
  simp [risen]

theorem risen_append (first second : List (NodeId × List Nat)) :
    engine.risen base (first ++ second) id =
      engine.risen base first id + engine.risen base second id := by
  unfold risen
  split <;> simp

/-- The calls of the observers among some subscribers of a node. -/
def addressed (node : NodeId) (subscribers : List Subscriber) (observer : ObserverId)
    (id : NodeId) : Nat :=
  if id = node then subscribers.count (.observer observer) else 0

/-- What nobody can get at has nothing above it that anybody can. -/
theorem risen_of_not_alive (hlinked : engine.forest.Linked) (htight : engine.forest.Tight)
    {fuel : Nat} {link : LinkId} (hdead : { engine with stack := base }.isAlive parent = false) :
    engine.risen base (engine.forest.climb (engine.forest.ascents fuel) (.link parent link)) id =
      0 := by
  unfold risen
  split
  · rename_i halive
    refine List.countP_eq_zero.mpr fun (top, route) hmem => ?_
    obtain ⟨_, _, heq, former, hformer, -⟩ := Forest.mem_climb.mp hmem
    obtain ⟨rfl, rfl⟩ := Subscriber.link.inj heq
    have hfollow := ((Forest.mem_ascents hlinked htight).mp hformer).1
    simp only [decide_eq_true_eq]
    rintro rfl
    have hreach := Forest.reaches_iff_follow.mpr ⟨former, hfollow⟩
    have hlive : { engine with stack := base }.isAlive parent = true :=
      isAlive_of_reaches hlinked halive hreach
    simp [hlive] at hdead
  · rfl

theorem risen_of_alive {fuel : Nat} {link : LinkId}
    (halive : { engine with stack := base }.isAlive parent = true) :
    engine.risen base (engine.forest.climb (engine.forest.ascents (fuel + 1)) (.link parent link))
        id =
      (if id = parent then 1 else 0) + engine.risen base
        ((engine.forest.subscribers parent).flatMap
          (engine.forest.climb (engine.forest.ascents fuel))) id := by
  simp only [risen, Forest.climb, List.countP_map, Function.comp_def, Forest.ascents,
    List.countP_cons]
  by_cases hid : id = parent
  · subst hid
    simp [halive, Nat.add_comm]
  · simp [hid, Ne.symm hid]

/-- No way up leads back. -/
theorem risen_self (hlinked : engine.forest.Linked) (htight : engine.forest.Tight)
    (hacyclic : engine.forest.Acyclic) (fuel : Nat) :
    engine.risen base ((engine.forest.subscribers node).flatMap
      (engine.forest.climb (engine.forest.ascents fuel))) node = 0 := by
  have hnone : ((engine.forest.subscribers node).flatMap
      (engine.forest.climb (engine.forest.ascents fuel))).countP (·.1 = node) = 0 := by
    refine List.countP_eq_zero.mpr fun (top, route) hmem => ?_
    have hway : (top, route) ∈ engine.forest.ascents (fuel + 1) node := List.mem_cons_of_mem _ hmem
    obtain ⟨subscriber, -, hclimb⟩ := List.mem_flatMap.mp hmem
    obtain ⟨_, _, -, former, -, heq⟩ := Forest.mem_climb.mp hclimb
    simp only [decide_eq_true_eq]
    rintro rfl
    have hnil := hacyclic.follow_self ((Forest.mem_ascents hlinked htight).mp hway).1
    simp [hnil] at heq
  simp [risen, hnone]

/-- The telling of a composite that hears of a node through a link. -/
theorem stands_link {link : LinkId} {rest : List Subscriber} (h : before.Stands base after)
    (hstack : after.stack = .tell node rest :: (extra ++ base))
    (hclear : before.Clear extra node) (hacyclic : before.forest.Acyclic)
    (hholds : before.forest.Holds parent node) :
    before.Stands base (after.tell node (.link parent link)) ∧
      if { before with stack := base }.isAlive parent then
        (after.tell node (.link parent link)).stack =
            .tell parent (before.forest.subscribers parent) :: after.stack ∧
          ∀ id, (after.tell node (.link parent link)).forest.version id =
            after.forest.version id + if id = parent then 1 else 0
      else
        (after.tell node (.link parent link)).stack = after.stack ∧
          ∀ id, (after.tell node (.link parent link)).forest.version id =
            after.forest.version id := by
  have hstack' : after.stack = (.tell node rest :: extra) ++ base := hstack
  have hgone : (after.forest.prune after.roots).gone parent =
      !{ before with stack := base }.isAlive parent := by
    refine h.gone_prune hstack' fun held hheld hreach => ?_
    rcases List.mem_append.mp (List.flatMap_cons ▸ hheld) with hself | hheld
    · obtain rfl := List.mem_singleton.mp hself
      exact hacyclic parent (.head' hholds hreach)
    · exact hclear held hheld parent (.single hholds) hreach
  have hpruned := h.prune hstack'
  simp only [tell, hgone]
  cases halive : { before with stack := base }.isAlive parent with
  | false =>
    simp only [Bool.not_false, if_true]
    exact ⟨hpruned, by simp⟩
  | true =>
    have hlive : (after.forest.prune after.roots).gone parent = false := by simp [hgone, halive]
    have hhas : after.forest.Has parent :=
      (Forest.has_prune _).mp (Forest.has_of_gone_eq_false hlive)
    simp only [Bool.not_true, Bool.false_eq_true, if_false, if_true]
    refine ⟨(hpruned.bump parent).congr rfl rfl rfl rfl, ?_, fun id => ?_⟩
    · simp [changed, announce, h.subscribers]
    · simp [changed, announce, Forest.version_bump, hhas]

theorem lt_length_of_tell {frame : Frame V} (hstack : before.stack = frame :: (extra ++ base)) :
    base.length < before.stack.length := by
  simp only [hstack, List.length_cons, List.length_append]
  omega

end

variable [BEq V]

theorem tight_of_play? {moves : List (Move V)} (hplay : engine.play? moves = some finish)
    (hengine : engine.forest.Tight) : finish.forest.Tight :=
  play?_forest_induction hplay hengine Piece.tight

-- ---------------------------------------------------------------------------
-- Runs in which listeners do nothing
-- ---------------------------------------------------------------------------

/-- The listener that a move lets return, and the node of which it was told. -/
def notified? (engine : Engine V) : Move V → Option (ObserverId × NodeId)
  | .resume =>
    match engine.callback? with
    | some (.node observer node) => some (observer, node)
    | _ => none
  | _ => none

/-- The calls of node listeners in a run. -/
def notified (engine : Engine V) (moves : List (Move V)) : List (ObserverId × NodeId) :=
  engine.record (fun before move _ => (before.notified? move).toList) moves

/-- In a run above this height no listener does anything, so many versions are counted for each
node, and so often is each listener called directly; the others are called once a version. -/
structure Rises (height : Nat) (direct : ObserverId → NodeId → Nat) (rise : NodeId → Nat)
    (before : Engine V) (moves : List (Move V)) (after : Engine V) : Prop where
  play : before.play? moves = some after
  quiet : ∀ move ∈ moves, move.isCall = false
  above : before.staysAbove height moves = true
  version : ∀ id, after.forest.version id = before.forest.version id + rise id
  calls : ∀ observer id, (before.notified moves).count (observer, id) =
    direct observer id + if .observer observer ∈ before.forest.subscribers id then rise id else 0

section
variable {height : Nat} {direct direct' direct'' : ObserverId → NodeId → Nat}
  {rise rise' rise'' : NodeId → Nat} {moves moves' : List (Move V)} {base extra : List (Frame V)}

theorem Rises.trans (h : Rises height direct rise before moves middle)
    (h' : Rises height direct' rise' middle moves' after)
    (hsubscribers : ∀ id, middle.forest.subscribers id = before.forest.subscribers id)
    (hdirect : ∀ observer id, direct'' observer id = direct observer id + direct' observer id)
    (hrise : ∀ id, rise'' id = rise id + rise' id) :
    Rises height direct'' rise'' before (moves ++ moves') after where
  play := play?_append_eq_some.mpr ⟨middle, h.play, h'.play⟩
  quiet move hmem := (List.mem_append.mp hmem).elim (h.quiet move) (h'.quiet move)
  above := every_append_of h.play h.above h'.above
  version id := by rw [h'.version, h.version, hrise, Nat.add_assoc]
  calls observer id := by
    have hlater := h'.calls observer id
    rw [hsubscribers] at hlater
    rw [notified, record_append h.play, List.count_append]
    simp only [notified] at hlater h
    rw [hlater]
    have := h.calls observer id
    simp only [notified] at this
    rw [this, hdirect, hrise]
    split <;> omega

/-- One move. -/
theorem Rises.single {move : Move V} (hmove : before.move? move = some after)
    (hcall : move.isCall = false) (hheight : height < before.stack.length)
    (hversion : ∀ id, after.forest.version id = before.forest.version id + rise id)
    (hcalls : ∀ observer id, (before.notified? move).toList.count (observer, id) =
      direct observer id +
        if .observer observer ∈ before.forest.subscribers id then rise id else 0) :
    Rises height direct rise before [move] after where
  play := play?_cons_eq_some.mpr ⟨after, hmove, rfl⟩
  quiet other hmem := List.mem_singleton.mp hmem ▸ hcall
  above := (every_cons hmove).mpr ⟨by simpa using hheight, rfl⟩
  version := hversion
  calls observer id := by
    rw [notified, record_cons hmove]
    simpa [record] using hcalls observer id

-- ---------------------------------------------------------------------------
-- A telling climbs
-- ---------------------------------------------------------------------------

theorem move?_tell {subscriber : Subscriber} {rest : List Subscriber}
    (hstack : before.stack = .tell node (subscriber :: rest) :: base) :
    before.move? .step =
      some ({ before with stack := .tell node rest :: base }.tell node subscriber) := by
  simp [move?, step, hstack, run, push]

/-- A registry has its notifier look at its properties, later. -/
theorem rises_registry {rest : List Subscriber} {registry : RegistryId}
    (hstands : engine.Stands base before)
    (hstack : before.stack = .tell node (.registry registry :: rest) :: (extra ++ base)) :
    ∃ moves after, after.stack = .tell node rest :: (extra ++ base) ∧ engine.Stands base after ∧
      Rises base.length (addressed node [.registry registry]) (fun _ => 0) before moves after := by
  let told := { before with stack := .tell node rest :: (extra ++ base) }
  have htold : engine.Stands base told := hstands.congr rfl rfl rfl rfl
  have hmove : before.move? .step = some (told.enqueue registry .refreshAll) := move?_tell hstack
  refine ⟨[.step], _, rfl, htold.enqueue registry .refreshAll,
    .single hmove rfl (lt_length_of_tell hstack) (fun _ => rfl) fun observer id => ?_⟩
  simp [notified?, addressed]

/-- An observer is called, and returns. -/
theorem rises_observer {rest : List Subscriber} {observer : ObserverId}
    (hstands : engine.Stands base before)
    (hstack : before.stack = .tell node (.observer observer :: rest) :: (extra ++ base)) :
    ∃ moves after, after.stack = .tell node rest :: (extra ++ base) ∧ engine.Stands base after ∧
      Rises base.length (addressed node [.observer observer]) (fun _ => 0) before moves after := by
  let told := { before with stack := .tell node rest :: (extra ++ base) }
  let called := told.push (.callback (.node observer node))
  have hcall : before.move? .step = some called := move?_tell hstack
  have hreturn : called.move? .resume = some told := rfl
  have hbegun : Rises base.length (fun _ _ => 0) (fun _ => 0) before [.step] called :=
    .single hcall rfl (lt_length_of_tell hstack) (fun _ => rfl) (by simp [notified?])
  have hdone : Rises base.length (addressed node [.observer observer]) (fun _ => 0) called
      [.resume] told := by
    refine .single hreturn rfl ?_ (fun _ => rfl) fun other id => ?_
    · have hbelow : called.stack =
          .callback (.node observer node) :: ((.tell node rest :: extra) ++ base) := rfl
      exact lt_length_of_tell hbelow
    · simp only [notified?, called, push, callback?, addressed, Option.toList_some, ite_self,
        List.count_singleton, Nat.add_zero]
      by_cases hid : id = node
      · subst hid
        simp
      · simp [hid, Ne.symm hid]
  exact ⟨_, told, rfl, hstands.congr rfl rfl rfl rfl,
    hbegun.trans hdone (fun _ => rfl) (fun _ _ => (Nat.zero_add _).symm) fun _ => rfl⟩

/-- A composite that can be got at counts a version and is told of in its turn; another one is
passed over. -/
theorem rises_link (hlinked : engine.forest.Linked) (htight : engine.forest.Tight)
    (hdistinct : engine.forest.Distinct) (hacyclic : engine.forest.Acyclic) {fuel : Nat}
    {rest : List Subscriber} {link : LinkId}
    (hwithin : engine.forest.Within (fuel + 1) node)
    (hlink : .link parent link ∈ engine.forest.subscribers node)
    (hclear : engine.Clear extra node) (hstands : engine.Stands base before)
    (hstack : before.stack = .tell node (.link parent link :: rest) :: (extra ++ base))
    (hclimb : ∀ {lower : Nat} {extra : List (Frame V)} {before : Engine V}, fuel = lower + 1 →
      engine.forest.Within fuel parent → engine.Clear extra parent → engine.Stands base before →
      before.stack = .tell parent (engine.forest.subscribers parent) :: (extra ++ base) →
      ∃ moves after, after.stack = extra ++ base ∧ engine.Stands base after ∧
        Rises base.length (addressed parent (engine.forest.subscribers parent))
          (engine.risen base ((engine.forest.subscribers parent).flatMap
            (engine.forest.climb (engine.forest.ascents lower)))) before moves after) :
    ∃ moves after, after.stack = .tell node rest :: (extra ++ base) ∧ engine.Stands base after ∧
      Rises base.length (addressed node [.link parent link])
        (engine.risen base (engine.forest.climb (engine.forest.ascents fuel) (.link parent link)))
        before moves after := by
  have hholds := htight.holds hlink
  let told := { before with stack := .tell node rest :: (extra ++ base) }
  have htold : engine.Stands base told := hstands.congr rfl rfl rfl rfl
  have hmove : before.move? .step = some (told.tell node (.link parent link)) := move?_tell hstack
  have hbelow : told.stack = .tell node rest :: (extra ++ base) := rfl
  obtain ⟨hafter, hcases⟩ : engine.Stands base (told.tell node (.link parent link)) ∧ _ :=
    stands_link htold hbelow hclear hacyclic hholds
  cases halive : { engine with stack := base }.isAlive parent with
  | false =>
    simp only [halive, Bool.false_eq_true, if_false] at hcases
    refine ⟨[.step], _, hcases.1, hafter, .single hmove rfl (lt_length_of_tell hstack) ?_ ?_⟩
    · intro id
      simp only [hcases.2, risen_of_not_alive hlinked htight halive]
      rfl
    · intro observer id
      simp [notified?, addressed, risen_of_not_alive hlinked htight halive]
  | true =>
    simp only [halive, if_true] at hcases
    have habove := hwithin.above hlinked htight hlink
    obtain ⟨lower, rfl⟩ : ∃ lower, fuel = lower + 1 :=
      Nat.exists_eq_succ_of_ne_zero (Nat.ne_of_gt (habove parent [] rfl))
    have hclear' : engine.Clear (.tell node rest :: extra) parent := hclear.above hacyclic hholds
    obtain ⟨moves, after, hstack', hstands', hrises⟩ :=
      hclimb rfl habove hclear' hafter hcases.1
    refine ⟨.step :: moves, after, hstack', hstands',
      ⟨?_, ?_, ?_, fun id => ?_, fun observer id => ?_⟩⟩
    · exact play?_cons_eq_some.mpr ⟨_, hmove, hrises.play⟩
    · intro move hmem
      cases hmem with
      | head => rfl
      | tail _ hmem => exact hrises.quiet move hmem
    · exact (every_cons hmove).mpr ⟨by simpa using lt_length_of_tell hstack, hrises.above⟩
    · rw [hrises.version, hcases.2, risen_of_alive halive, Nat.add_assoc]
    · -- whoever follows the parent is told of the version that it has counted itself
      have hcalls := hrises.calls observer id
      rw [notified, record_cons hmove, ← notified, List.count_append, hcalls, hafter.subscribers,
        hstands.subscribers, risen_of_alive halive]
      have hcount : (engine.forest.subscribers parent).count (.observer observer) =
          if .observer observer ∈ engine.forest.subscribers parent then 1 else 0 :=
        (hdistinct.subscribers parent).count
      by_cases hid : id = parent
      · subst hid
        simp only [notified?, addressed, hcount, if_true]
        by_cases hmem : .observer observer ∈ engine.forest.subscribers id <;> simp [hmem]
      · simp [notified?, addressed, hid]

/-- While listeners do nothing, the telling of a node comes to its end, and whatever lies above the
node has then counted a version for each way up that starts with the subscribers told. -/
theorem exists_rises (hlinked : engine.forest.Linked) (htight : engine.forest.Tight)
    (hdistinct : engine.forest.Distinct) (hacyclic : engine.forest.Acyclic) {fuel : Nat}
    {subscribers : List Subscriber}
    (hwithin : engine.forest.Within (fuel + 1) node)
    (hsubscribers : subscribers ⊆ engine.forest.subscribers node)
    (hclear : engine.Clear extra node) (hstands : engine.Stands base before)
    (hstack : before.stack = .tell node subscribers :: (extra ++ base)) :
    ∃ moves after, after.stack = extra ++ base ∧ engine.Stands base after ∧
      Rises base.length (addressed node subscribers)
        (engine.risen base
          (subscribers.flatMap (engine.forest.climb (engine.forest.ascents fuel))))
        before moves after := by
  induction fuel using Nat.strongRecOn generalizing node extra subscribers before with
  | ind fuel climb =>
  induction subscribers generalizing before with
  | nil =>
    let popped := { before with stack := extra ++ base }
    have hmove : before.move? .step = some popped := by
      simp [move?, step, hstack, run, popped]
    refine ⟨[.step], popped, rfl, hstands.congr rfl rfl rfl rfl,
      .single hmove rfl (lt_length_of_tell hstack) (fun id => ?_) fun observer id => ?_⟩
    · simp [risen_nil, popped]
    · simp [risen_nil, addressed, notified?]
  | cons subscriber rest ih =>
    have hrest : rest ⊆ engine.forest.subscribers node :=
      fun other hother => hsubscribers (List.mem_cons_of_mem _ hother)
    have hfirst : ∃ moves middle, middle.stack = .tell node rest :: (extra ++ base) ∧
        engine.Stands base middle ∧ Rises base.length (addressed node [subscriber])
          (engine.risen base (engine.forest.climb (engine.forest.ascents fuel) subscriber))
          before moves middle := by
      cases subscriber with
      | registry id =>
        simpa [risen_nil, Forest.climb] using rises_registry hstands hstack
      | observer observer =>
        simpa [risen_nil, Forest.climb] using rises_observer hstands hstack
      | link parent link =>
        refine rises_link hlinked htight hdistinct hacyclic hwithin
          (hsubscribers List.mem_cons_self) hclear hstands hstack ?_
        rintro lower extra before rfl hwithin hclear hstands hstack
        exact climb lower (Nat.lt_succ_self _) hwithin (List.Subset.refl _) hclear hstands hstack
    obtain ⟨moves, middle, hstack', hstands', hrises⟩ := hfirst
    obtain ⟨moves', after, hstack'', hstands'', hrises'⟩ := ih hrest hstands' hstack'
    refine ⟨moves ++ moves', after, hstack'', hstands'', hrises.trans hrises' (fun id => ?_) ?_ ?_⟩
    · simp only [hstands'.subscribers, hstands.subscribers]
    · intro observer id
      simp only [addressed]
      split <;> simp [List.count_cons, Nat.add_comm]
    · intro id
      rw [List.flatMap_cons, risen_append]

end

end Overlay.Engine
