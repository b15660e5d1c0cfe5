import Mathlib.Data.List.Nodup
import Overlay.Proofs.Forest.Links
import Overlay.Proofs.Forest.Routes
import Overlay.Proofs.Forest.Subscribers

/-!
# Ways up

A composite hears of a child through one link for each entry that holds it, and
through no other (`Tight`, beside `Linked`). So the links that lead up from a node
mirror the routes that lead down to it: climbing them lists every route to the
node once (`mem_ascents`, `nodup_ascents`).
-/

namespace Overlay

namespace Forest

variable {forest before after : Forest} {id parent node target : NodeId}

/-- No composite hears of a node but for an entry that holds it. -/
def Tight (forest : Forest) : Prop :=
  ∀ node parent link, .link parent link ∈ forest.subscribers node →
    ∃ child ∈ forest.children parent, child.link = link ∧ child.node = node

theorem tight_empty : ({} : Forest).Tight := by
  intro node parent link hmem
  simp [subscribers, node?] at hmem

/-- Where children stay and no link is added. -/
theorem Tight.congr (h : before.Tight)
    (hchildren : ∀ parent, before.Has parent → after.children parent = before.children parent)
    (hsubscribers : ∀ node parent link, .link parent link ∈ after.subscribers node →
      .link parent link ∈ before.subscribers node) : after.Tight := by
  intro node parent link hmem
  obtain ⟨child, hchild, hlink, hnode⟩ := h node parent link (hsubscribers node parent link hmem)
  exact ⟨child, hchildren parent (has_of_mem_children hchild) ▸ hchild, hlink, hnode⟩

theorem Tight.bump (h : forest.Tight) : (forest.bump id).Tight :=
  h.congr (by simp) (by simp)

theorem Tight.subscribe (h : forest.Tight) {subscriber : Subscriber}
    (hother : ∀ parent link, subscriber ≠ .link parent link) :
    (forest.subscribe id subscriber).Tight := by
  refine h.congr (by simp) fun node parent link hmem => ?_
  rcases mem_subscribers_subscribe.mp hmem with hmem | ⟨-, -, hnew⟩
  · exact hmem
  · exact absurd hnew.symm (hother parent link)

theorem Tight.unsubscribe (h : forest.Tight) {subscriber : Subscriber} :
    (forest.unsubscribe id subscriber).Tight :=
  h.congr (by simp) fun _ _ _ hmem => (mem_subscribers_unsubscribe.mp hmem).1

theorem children_edit (edit : Edit) :
    (forest.edit id edit).2.children node = forest.children node := by
  rcases edit_eq forest id edit with heq | ⟨found, entries, next, hnode, hleaf, -, heq⟩
  · rw [heq]
  · by_cases hid : node = id
    · subst hid
      simp [heq, children, node?_modify, hnode, Node.children_eq, hleaf, Content.children]
    · simp [heq, children, node?_modify_of_ne hid]

theorem subscribers_edit (edit : Edit) :
    (forest.edit id edit).2.subscribers node = forest.subscribers node := by
  rcases edit_eq forest id edit with heq | ⟨_, _, _, -, -, -, heq⟩
  · rw [heq]
  · rw [heq]
    exact subscribers_modify fun _ => rfl

theorem Tight.edit (h : forest.Tight) (edit : Edit) : (forest.edit id edit).2.Tight :=
  h.congr (fun _ _ => children_edit edit) fun _ _ _ hmem => subscribers_edit edit ▸ hmem

theorem Tight.plant (h : forest.Tight) {planted : Node} (hnew : planted.subscribers = []) :
    (forest.plant planted).2.Tight := by
  refine h.congr (fun parent hhas => ?_) fun node parent link hmem => ?_
  · simp [children, node?_plant_of_has planted hhas]
  · simp only [subscribers, node?_plant] at hmem
    split at hmem
    · simp [hnew] at hmem
    · exact hmem

theorem Tight.attach (h : forest.Tight) {place : Place} {name : String}
    (hparent : forest.Has parent) : (forest.attach parent place name node).Tight := by
  intro held holder link hmem
  rw [mem_subscribers_attach] at hmem
  rcases hmem with hmem | ⟨rfl, -, hnew⟩
  · obtain ⟨child, hchild, hlink, hnode⟩ := h held holder link hmem
    refine ⟨child, ?_, hlink, hnode⟩
    rw [children_attach]
    split
    · rename_i hholder
      exact place.mem_insert.mpr (.inr (hholder.1 ▸ hchild))
    · exact hchild
  · obtain ⟨rfl, rfl⟩ := Subscriber.link.inj hnew
    refine ⟨⟨name, held, forest.links⟩, ?_, rfl, rfl⟩
    rw [children_attach, if_pos ⟨rfl, hparent⟩]
    exact place.mem_insert.mpr (.inl rfl)

/-- Nothing is erased but what is found. -/
theorem mem_eraseP_of_ne {α : Type} {p : α → Bool} {a found : α} {items : List α}
    (hfind : items.find? p = some found) (hmem : a ∈ items) (hne : a ≠ found) :
    a ∈ items.eraseP p := by
  induction items with
  | nil => exact absurd hmem List.not_mem_nil
  | cons first rest ih =>
    cases hp : p first with
    | true =>
      simp only [List.find?_cons, hp, Option.some.injEq] at hfind
      simp only [List.eraseP_cons, hp, cond_true]
      exact List.mem_of_ne_of_mem (hfind ▸ hne) hmem
    | false =>
      simp only [List.find?_cons, hp] at hfind
      simp only [List.eraseP_cons, hp, cond_false]
      cases hmem with
      | head => exact List.mem_cons_self
      | tail _ hmem => exact List.mem_cons_of_mem _ (ih hfind hmem)

theorem Tight.detach (h : before.Tight) {name : String} {child : Child}
    (hdetach : before.detach parent name = some (child, after)) : after.Tight := by
  obtain ⟨hfind, rfl⟩ := detach_eq_some_iff.mp hdetach
  intro held holder link hmem
  rw [mem_subscribers_unsubscribe, subscribers_setChildren] at hmem
  obtain ⟨hmem, hkept⟩ := hmem
  obtain ⟨entry, hentry, rfl, rfl⟩ := h held holder link hmem
  refine ⟨entry, ?_, rfl, rfl⟩
  rw [children_unsubscribe, children_setChildren]
  split
  · -- the entry that has been erased is the one whose link has been cut
    rename_i hholder
    obtain ⟨rfl, -⟩ := hholder
    exact mem_eraseP_of_ne hfind hentry fun heq => hkept ⟨heq ▸ rfl, heq ▸ rfl⟩
  · exact hentry

theorem Tight.prune (h : forest.Tight) (roots : List NodeId) : (forest.prune roots).Tight :=
  h.congr (by simp) (by simp)

-- ---------------------------------------------------------------------------
-- Climbing
-- ---------------------------------------------------------------------------

/-- The position of the entry with this link. -/
def position (forest : Forest) (parent : NodeId) (link : LinkId) : Nat :=
  (forest.children parent).findIdx (·.link = link)

/-- From the ways up from its parents, the ways up from a node that start with this subscriber:
where each ends, and the route down. -/
def climb (forest : Forest) (up : NodeId → List (NodeId × List Nat)) :
    Subscriber → List (NodeId × List Nat)
  | .link parent id =>
    (up parent).map fun (top, route) => (top, route ++ [forest.position parent id])
  | .registry _ | .observer _ => []

/-- The ways up from a node in fewer steps than `fuel`. -/
def ascents (forest : Forest) : Nat → NodeId → List (NodeId × List Nat)
  | 0, _ => []
  | fuel + 1, node =>
    (node, []) :: (forest.subscribers node).flatMap (forest.climb (forest.ascents fuel))

theorem mem_climb {up : NodeId → List (NodeId × List Nat)} {subscriber : Subscriber}
    {way : NodeId × List Nat} : way ∈ forest.climb up subscriber ↔
      ∃ parent link, subscriber = .link parent link ∧ ∃ route, (way.1, route) ∈ up parent ∧
        way.2 = route ++ [forest.position parent link] := by
  cases subscriber with
  | link parent link =>
    obtain ⟨top, route⟩ := way
    simp only [climb, List.mem_map, Prod.exists, Prod.mk.injEq, Subscriber.link.injEq]
    constructor
    · rintro ⟨_, former, hmem, rfl, rfl⟩
      exact ⟨parent, link, ⟨rfl, rfl⟩, former, hmem, rfl⟩
    · rintro ⟨_, _, ⟨rfl, rfl⟩, former, hmem, rfl⟩
      exact ⟨top, former, hmem, rfl, rfl⟩
  | registry _ => simp [climb]
  | observer _ => simp [climb]

theorem position_eq (h : ((forest.children parent).map (·.link)).Nodup) {i : Nat} {child : Child}
    (hchild : (forest.children parent)[i]? = some child) :
    forest.position parent child.link = i := by
  obtain ⟨hlt, rfl⟩ := List.getElem?_eq_some_iff.mp hchild
  refine (List.findIdx_eq hlt).mpr ⟨by simp, fun j hj => ?_⟩
  have hne := List.pairwise_iff_getElem.mp h j i (by simp; omega) (by simpa using hlt) hj
  simpa using hne

theorem follow_concat (route : List Nat) (i : Nat) :
    forest.follow id (route ++ [i]) =
      (forest.follow id route).bind fun parent =>
        (forest.children parent)[i]?.map (·.node) := by
  simp only [follow_append, follow, Option.map_eq_bind]
  rfl

/-- The entries that hold a node, by the links to it. -/
theorem exists_entry_iff (hlinked : forest.Linked) (htight : forest.Tight) {i : Nat} :
    (forest.children parent)[i]?.map (·.node) = some node ↔
      ∃ link, .link parent link ∈ forest.subscribers node ∧ forest.position parent link = i := by
  constructor
  · intro h
    obtain ⟨child, hchild, rfl⟩ := Option.map_eq_some_iff.mp h
    exact ⟨child.link, hlinked.subscribed parent child (List.mem_of_getElem? hchild),
      position_eq (hlinked.distinct parent) hchild⟩
  · rintro ⟨link, hmem, rfl⟩
    obtain ⟨child, hchild, rfl, rfl⟩ := htight node parent link hmem
    obtain ⟨i, hi⟩ := List.mem_iff_getElem?.mp hchild
    simp [position_eq (hlinked.distinct parent) hi, hi]

theorem link_eq_of_position (hlinked : forest.Linked) (htight : forest.Tight) {link other : LinkId}
    (hlink : .link parent link ∈ forest.subscribers node)
    (hother : .link parent other ∈ forest.subscribers target)
    (h : forest.position parent link = forest.position parent other) : link = other := by
  obtain ⟨child, hchild, rfl, -⟩ := htight _ _ _ hlink
  obtain ⟨child', hchild', rfl, -⟩ := htight _ _ _ hother
  obtain ⟨i, hi⟩ := List.mem_iff_getElem?.mp hchild
  obtain ⟨j, hj⟩ := List.mem_iff_getElem?.mp hchild'
  have hdistinct := hlinked.distinct parent
  simp only [position_eq hdistinct hi, position_eq hdistinct hj] at h
  subst h
  exact congrArg _ (Option.some.inj (hi.symm.trans hj))

/-- Climbing finds every route to the node. -/
theorem mem_ascents (hlinked : forest.Linked) (htight : forest.Tight) {fuel : Nat}
    {route : List Nat} :
    (id, route) ∈ forest.ascents fuel node ↔
      forest.follow id route = some node ∧ route.length < fuel := by
  induction fuel generalizing node route with
  | zero => simp [ascents]
  | succ fuel ih =>
    simp only [ascents, List.mem_cons, List.mem_flatMap, mem_climb]
    rcases List.eq_nil_or_concat route with rfl | ⟨former, i, rfl⟩
    · simp [follow]
    · simp only [List.concat_eq_append, follow_concat, Option.bind_eq_some_iff,
        exists_entry_iff hlinked htight, ih, List.length_append, List.length_singleton,
        Nat.add_lt_add_iff_right]
      constructor
      · rintro (hnil | ⟨_, hmem, parent, link, rfl, route, ⟨hfollow, hlt⟩, heq⟩)
        · simp at hnil
        · obtain ⟨rfl, hi⟩ := List.append_inj' heq rfl
          exact ⟨⟨parent, hfollow, link, hmem, (List.cons.inj hi).1.symm⟩, hlt⟩
      · rintro ⟨⟨parent, hfollow, link, hmem, rfl⟩, hlt⟩
        exact .inr ⟨_, hmem, parent, link, rfl, former, ⟨hfollow, hlt⟩, rfl⟩

/-- Climbing finds each of them once. -/
theorem nodup_ascents (hlinked : forest.Linked) (htight : forest.Tight)
    (hdistinct : forest.Distinct) (fuel : Nat) (node : NodeId) :
    (forest.ascents fuel node).Nodup := by
  induction fuel generalizing node with
  | zero => exact List.nodup_nil
  | succ fuel ih =>
    refine List.nodup_cons.mpr ⟨?_, List.nodup_flatMap.mpr ⟨fun subscriber _ => ?_, ?_⟩⟩
    · simp [mem_climb]
    · cases subscriber with
      | link parent link =>
        refine (ih parent).map fun (top, route) (other, route') heq => ?_
        obtain ⟨rfl, hroute⟩ := Prod.mk.inj heq
        exact congrArg _ (List.append_cancel_right hroute)
      | registry _ => exact List.nodup_nil
      | observer _ => exact List.nodup_nil
    · refine (hdistinct.subscribers node).imp_of_mem fun {a b} ha hb hne way hway hway' => hne ?_
      obtain ⟨parent, link, rfl, route, hroute, heq⟩ := mem_climb.mp hway
      obtain ⟨parent', link', rfl, route', hroute', heq'⟩ := mem_climb.mp hway'
      obtain ⟨rfl, hposition⟩ := List.append_inj' (heq.symm.trans heq') rfl
      have hfollow := ((mem_ascents hlinked htight).mp hroute).1
      have hfollow' := ((mem_ascents hlinked htight).mp hroute').1
      obtain rfl := Option.some.inj (hfollow.symm.trans hfollow')
      have hlink := link_eq_of_position hlinked htight ha hb (List.cons.inj hposition).1
      rw [hlink]

-- ---------------------------------------------------------------------------
-- All routes to a node
-- ---------------------------------------------------------------------------

/-- Every route to the node is shorter than this. -/
def Within (forest : Forest) (fuel : Nat) (node : NodeId) : Prop :=
  ∀ id route, forest.follow id route = some node → route.length < fuel

theorem Acyclic.within (h : forest.Acyclic) (node : NodeId) :
    forest.Within (forest.nodes.length + 1) node := by
  intro id route hroute
  obtain ⟨path, hpath, hlen⟩ := exists_path_of_follow hroute
  have hle := hpath.length_le_of_nodup (h.nodup_path hpath)
  exact Nat.lt_succ_of_le (hlen ▸ hle)

/-- What hears of a node is reached on shorter routes. -/
theorem Within.above (hlinked : forest.Linked) (htight : forest.Tight) {fuel : Nat}
    {link : LinkId} (h : forest.Within (fuel + 1) node)
    (hlink : .link parent link ∈ forest.subscribers node) : forest.Within fuel parent := by
  intro id route hroute
  have hentry := (exists_entry_iff hlinked htight).mpr ⟨link, hlink, rfl⟩
  have hlonger := h id (route ++ [forest.position parent link]) (by
    simp [follow_concat, hroute, hentry])
  simpa using hlonger

theorem Tight.holds (h : forest.Tight) {link : LinkId}
    (hlink : .link parent link ∈ forest.subscribers node) : forest.Holds parent node := by
  obtain ⟨child, hchild, -, hnode⟩ := h node parent link hlink
  exact ⟨child, hchild, hnode⟩

/-- No detour leads back. -/
theorem Acyclic.follow_self (h : forest.Acyclic) {route : List Nat}
    (hroute : forest.follow node route = some node) : route = [] := by
  obtain ⟨path, hpath, hlen⟩ := exists_path_of_follow hroute
  cases path with
  | nil => exact List.eq_nil_of_length_eq_zero hlen.symm
  | cons next rest => exact absurd (.head' hpath.1 hpath.2.reaches) (h node)

/-- There are as many routes as ways up. -/
theorem exists_routes (hlinked : forest.Linked) (htight : forest.Tight)
    (hdistinct : forest.Distinct) {fuel : Nat} (hwithin : forest.Within fuel node) (id : NodeId) :
    ∃ routes : List (List Nat), routes.Nodup ∧
      (∀ route, route ∈ routes ↔ forest.follow id route = some node) ∧
      routes.length = (forest.ascents fuel node).countP (·.1 = id) := by
  refine ⟨((forest.ascents fuel node).filter (·.1 = id)).map (·.2), ?_, fun route => ?_, ?_⟩
  · refine ((nodup_ascents hlinked htight hdistinct fuel node).filter _).map_on ?_
    rintro ⟨top, route⟩ htop ⟨other, _⟩ hother rfl
    simp only [List.mem_filter, decide_eq_true_eq] at htop hother
    rw [htop.2, hother.2]
  · simp only [List.mem_map, List.mem_filter, decide_eq_true_eq, Prod.exists]
    constructor
    · rintro ⟨_, _, ⟨hmem, rfl⟩, rfl⟩
      exact ((mem_ascents hlinked htight).mp hmem).1
    · intro hroute
      exact ⟨id, route, ⟨(mem_ascents hlinked htight).mpr ⟨hroute, hwithin id route hroute⟩, rfl⟩,
        rfl⟩
  · simp [List.countP_eq_length_filter]

end Forest

end Overlay
