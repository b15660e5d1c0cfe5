import Mathlib.Data.Finset.Card
import Overlay.Proofs.Crew.Run
import Overlay.Proofs.Engine.Books

/-!
# Requests for handles

Workers ask a registry for handles, register decoders and change trees, all at once. A
request takes two steps: a worker searches for the handle, and makes one later if there was
none, when others may have made it already (`Desk`). Each key and type has one handle all the
same, made by the first answer and given in all later ones, and it stays what that answer
made it (`Ledger`).
-/

namespace Overlay

variable {V : Type}

/-- A request that was not refused: the handle it would have made, and the one it was given. -/
structure Grant (V : Type) where
  wanted : Handle V
  handle : HandleId

def Grant.pair (grant : Grant V) : String × String := grant.wanted.pair

namespace Engine

variable [BEq V]

def granted? (engine : Engine V) (home : RegistryId) (move : Move V) : Option (Grant V) :=
  (engine.wanted? home move).map fun wanted =>
    ⟨wanted, (engine.request home wanted.key wanted.typeName wanted.fallback wanted.decode).1⟩

/-- The second step of a request, given what the search has come to. What was found is read;
otherwise the search is repeated, and a handle made if there is still none. The decoder may
have been looked up long before. -/
def answer (engine : Engine V) (found : Option HandleId) (home : RegistryId) (key typeName : String)
    (fallback : V) (decode : Decoder V) : HandleId × Engine V :=
  match found with
  | some handle => (handle, engine.refreshHandle handle)
  | none => engine.request home key typeName fallback decode

end Engine

/-- What a registry has granted accounts for its handles. -/
structure Ledger (home : RegistryId) (grants : List (Grant V)) (engine : Engine V) : Prop where
  granted : ∀ grant ∈ grants,
    grant.handle ∈ engine.listed home ∧ engine.pairAt? grant.handle = some grant.pair
  asked : ∀ id ∈ engine.listed home, ∃ grant ∈ grants, grant.handle = id
  distinct : ((engine.listed home).map engine.pairAt?).Nodup
  /-- The first grant of a pair is the one that made the handle. -/
  first : ∀ earlier grant later, grants = earlier ++ grant :: later →
    grant.pair ∉ earlier.map Grant.pair → engine.bareAt? grant.handle = some grant.wanted

section
variable {home : RegistryId} {grants : List (Grant V)} {before after engine : Engine V}
  {id other : HandleId} {wanted : Handle V} {key typeName : String}

theorem Ledger.pairAt?_of_mem (h : Ledger home grants engine) (hmem : id ∈ engine.listed home) :
    ∃ pair ∈ grants.map Grant.pair, engine.pairAt? id = some pair := by
  obtain ⟨grant, hgrant, rfl⟩ := h.asked id hmem
  exact ⟨grant.pair, List.mem_map_of_mem hgrant, (h.granted grant hgrant).2⟩

theorem Ledger.eq_of_pairAt? (h : Ledger home grants engine) (hmem : id ∈ engine.listed home)
    (hother : other ∈ engine.listed home) (hpair : engine.pairAt? id = engine.pairAt? other) :
    id = other :=
  List.inj_on_of_nodup_map h.distinct hmem hother hpair

theorem Ledger.find?_eq (h : Ledger home grants engine) (hmem : id ∈ engine.listed home)
    (hpair : engine.pairAt? id = some (key, typeName)) :
    engine.find? home key typeName = some id := by
  cases hfind : engine.find? home key typeName with
  | none => exact absurd hpair (Engine.of_find?_eq_none hfind id hmem)
  | some found =>
    obtain ⟨hfound, hsame⟩ := Engine.of_find?_eq_some hfind
    rw [h.eq_of_pairAt? hfound hmem (hsame.trans hpair.symm)]

theorem Ledger.handle_eq_iff (h : Ledger home grants engine) {grant later : Grant V}
    (hgrant : grant ∈ grants) (hlater : later ∈ grants) :
    grant.handle = later.handle ↔ grant.pair = later.pair := by
  obtain ⟨hmem, hpair⟩ := h.granted grant hgrant
  obtain ⟨hmem', hpair'⟩ := h.granted later hlater
  constructor
  · intro hsame
    exact Option.some.inj (hpair.symm.trans ((congrArg _ hsame).trans hpair'))
  · intro hsame
    exact h.eq_of_pairAt? hmem hmem' (hpair.trans ((congrArg some hsame).trans hpair'.symm))

/-- There are as many handles as pairs that have been asked for. -/
theorem Ledger.card_eq (h : Ledger home grants engine) :
    (engine.listed home).length = (grants.map Grant.pair).toFinset.card := by
  have hpairs : ((engine.listed home).map engine.pairAt?).toFinset =
      (grants.map Grant.pair).toFinset.image some := by
    ext pair
    rw [List.mem_toFinset, Finset.mem_image, List.mem_map]
    constructor
    · rintro ⟨id, hmem, rfl⟩
      obtain ⟨pair, hpair, hsome⟩ := h.pairAt?_of_mem hmem
      exact ⟨pair, List.mem_toFinset.mpr hpair, hsome.symm⟩
    · rintro ⟨pair, hpair, rfl⟩
      obtain ⟨grant, hgrant, rfl⟩ := List.mem_map.mp (List.mem_toFinset.mp hpair)
      exact ⟨grant.handle, h.granted grant hgrant⟩
  calc (engine.listed home).length
      = ((engine.listed home).map engine.pairAt?).length := (List.length_map _).symm
    _ = ((grants.map Grant.pair).toFinset.image some).card := by
      rw [← List.toFinset_card_of_nodup h.distinct, hpairs]
    _ = (grants.map Grant.pair).toFinset.card :=
      Finset.card_image_of_injective _ (Option.some_injective _)

-- ---------------------------------------------------------------------------
-- What moves do to the ledger
-- ---------------------------------------------------------------------------

theorem Ledger.pairs_eq (h : Ledger home grants before) (hretains : before.Retains after) :
    (before.listed home).map after.pairAt? = (before.listed home).map before.pairAt? := by
  refine List.map_congr_left fun id hmem => ?_
  obtain ⟨pair, -, hpair⟩ := h.pairAt?_of_mem hmem
  rw [hpair, hretains.pairAt? hpair]

theorem Ledger.stays {more : List (Grant V)} (h : Ledger home grants before)
    (hlater : Ledger home (grants ++ more) after) (hmem : id ∈ before.listed home) :
    id ∈ after.listed home := by
  obtain ⟨grant, hgrant, rfl⟩ := h.asked id hmem
  exact (hlater.granted grant (List.mem_append_left more hgrant)).1

/-- Nothing is granted, and the list stays. -/
theorem Ledger.keep (h : Ledger home grants before) (hretains : before.Retains after)
    (hlisted : after.listed home = before.listed home) : Ledger home grants after where
  granted grant hgrant := by
    obtain ⟨hmem, hpair⟩ := h.granted grant hgrant
    exact ⟨hlisted ▸ hmem, hretains.pairAt? hpair⟩
  asked id hmem := h.asked id (hlisted ▸ hmem)
  distinct := by
    rw [hlisted, h.pairs_eq hretains]
    exact h.distinct
  first earlier grant later hsplit hnew := hretains.bareAt? (h.first earlier grant later hsplit hnew)

/-- A place in a list with one item more is a place in the list, or the last one. -/
theorem concat_split {α : Type} {items earlier later : List α} {a b : α}
    (h : items ++ [a] = earlier ++ b :: later) :
    (∃ rest, items = earlier ++ b :: rest) ∨ items = earlier ∧ a = b := by
  rcases List.eq_nil_or_concat later with rfl | ⟨rest, last, rfl⟩
  · obtain ⟨hitems, hlast⟩ := List.append_inj' h rfl
    exact .inr ⟨hitems, List.singleton_inj.mp hlast⟩
  · have hconcat : items ++ [a] = (earlier ++ b :: rest) ++ [last] := by simpa using h
    exact .inl ⟨rest, (List.append_inj' hconcat rfl).1⟩

/-- A handle is granted that there is. -/
theorem Ledger.found (h : Ledger home grants engine)
    (hfind : engine.find? home wanted.key wanted.typeName = some id) :
    Ledger home (grants ++ [⟨wanted, id⟩]) engine where
  granted grant hgrant := by
    rcases List.mem_append.mp hgrant with hold | hlast
    · exact h.granted grant hold
    · obtain rfl := List.mem_singleton.mp hlast
      exact Engine.of_find?_eq_some hfind
  asked id hmem := by
    obtain ⟨grant, hgrant, hid⟩ := h.asked id hmem
    exact ⟨grant, List.mem_append_left _ hgrant, hid⟩
  distinct := h.distinct
  first earlier grant later hsplit hnew := by
    rcases concat_split hsplit with ⟨rest, hold⟩ | ⟨rfl, rfl⟩
    · exact h.first earlier grant rest hold hnew
    · -- the handle was made for an earlier grant
      obtain ⟨hmem, hpair⟩ := Engine.of_find?_eq_some hfind
      obtain ⟨pair, hearlier, hsome⟩ := h.pairAt?_of_mem hmem
      obtain rfl := Option.some.inj (hpair.symm.trans hsome)
      exact absurd hearlier hnew

/-- A handle is made, and granted. -/
theorem Ledger.made (h : Ledger home grants before) (hretains : before.Retains after)
    (hfind : before.find? home wanted.key wanted.typeName = none)
    (hlisted : after.listed home = before.listed home ++ [id])
    (hmade : after.bareAt? id = some wanted) : Ledger home (grants ++ [⟨wanted, id⟩]) after where
  granted grant hgrant := by
    rw [hlisted]
    rcases List.mem_append.mp hgrant with hold | hlast
    · obtain ⟨hmem, hpair⟩ := h.granted grant hold
      exact ⟨List.mem_append_left _ hmem, hretains.pairAt? hpair⟩
    · obtain rfl := List.mem_singleton.mp hlast
      refine ⟨List.mem_append_right _ (List.mem_singleton_self id), ?_⟩
      rw [Engine.pairAt?, hmade]
      rfl
  asked other hmem := by
    rw [hlisted] at hmem
    rcases List.mem_append.mp hmem with hold | hlast
    · obtain ⟨grant, hgrant, hid⟩ := h.asked other hold
      exact ⟨grant, List.mem_append_left _ hgrant, hid⟩
    · obtain rfl := List.mem_singleton.mp hlast
      exact ⟨_, List.mem_append_right _ (List.mem_singleton_self _), rfl⟩
  distinct := by
    have hpair : after.pairAt? id = some wanted.pair := by
      rw [Engine.pairAt?, hmade]
      rfl
    rw [hlisted, List.map_append, h.pairs_eq hretains, List.map_singleton, hpair]
    refine List.nodup_append.mpr ⟨h.distinct, List.nodup_singleton _, ?_⟩
    -- the search has found no handle of the pair
    intro old hold new hnew
    obtain ⟨other, hmem, rfl⟩ := List.mem_map.mp hold
    obtain rfl := List.mem_singleton.mp hnew
    exact Engine.of_find?_eq_none hfind other hmem
  first earlier grant later hsplit hnew := by
    rcases concat_split hsplit with ⟨rest, hold⟩ | ⟨rfl, rfl⟩
    · exact hretains.bareAt? (h.first earlier grant rest hold hnew)
    · exact hmade

variable [BEq V] {move : Move V}

theorem Ledger.booked (h : Ledger home grants before) (hbooked : Engine.Booked home before move after)
    (hhome : home < before.registries.length) (hretains : before.Retains after) :
    Ledger home (grants ++ (before.granted? home move).toList) after := by
  cases hbooked with
  | quiet hwanted _ hbooks =>
    rw [Engine.granted?, hwanted, Option.map_none, Option.toList_none, List.append_nil]
    refine h.keep hretains ?_
    rw [Engine.listed_eq_books, hbooks, ← Engine.listed_eq_books]
  | found hwanted _ hfind hbooks =>
    rw [Engine.granted?, hwanted, Option.map_some, Engine.fst_request, hfind]
    refine (h.found hfind).keep hretains ?_
    rw [Engine.listed_eq_books, hbooks, ← Engine.listed_eq_books]
  | made hwanted _ hfind hbooks hmade =>
    rw [Engine.granted?, hwanted, Option.map_some, Engine.fst_request, hfind]
    refine h.made hretains hfind ?_ hmade
    have hsome : home < before.books.length := by rwa [Engine.books, List.length_map]
    rw [Engine.listed_eq_books, hbooks, Engine.listed_eq_books, List.getElem?_eq_getElem hsome]
    rfl
  | registered hwanted _ hbooks =>
    rw [Engine.granted?, hwanted, Option.map_none, Option.toList_none, List.append_nil]
    refine h.keep hretains ?_
    rw [Engine.listed_eq_books, hbooks, Engine.listed_eq_books, Option.map_map]
    rfl

/-- With what a search has come to, the request is answered as if it were made now. -/
theorem Ledger.answer_eq (h : Ledger home grants engine) {found : Option HandleId}
    (hfound : ∀ id ∈ found, id ∈ engine.listed home ∧ engine.pairAt? id = some (key, typeName))
    (fallback : V) (decode : Decoder V) :
    engine.answer found home key typeName fallback decode =
      engine.request home key typeName fallback decode := by
  cases found with
  | none => rfl
  | some id =>
    obtain ⟨hmem, hpair⟩ := hfound id rfl
    rw [Engine.request, h.find?_eq hmem hpair]
    rfl

/-- The decoders that are registered are the last ones of their types. -/
def Stocked (home : RegistryId) (known : List (String × Decoder V)) (engine : Engine V) : Prop :=
  ∀ typeName, engine.decoder? home typeName = known.reverse.lookup typeName

omit [BEq V] in
theorem Stocked.booked {known : List (String × Decoder V)} (h : Stocked home known before)
    (hbooked : Engine.Booked home before move after) (hhome : home < before.registries.length) :
    Stocked home (known ++ (move.registers? home).toList) after := by
  intro other
  have hdecoder (engine : Engine V) : engine.decoder? home other =
      ((engine.books[home]?).map Prod.snd).bind (·.find? other) := by
    rw [Engine.decoder?_eq_books, Option.bind_map]
    rfl
  have hkept (hregisters : move.registers? home = none)
      (hbooks : (after.books[home]?).map Prod.snd = (before.books[home]?).map Prod.snd) :
      after.decoder? home other = (known ++ (move.registers? home).toList).reverse.lookup other := by
    rw [hregisters, Option.toList_none, List.append_nil, ← h other, hdecoder, hdecoder, hbooks]
  cases hbooked with
  | quiet _ hregisters hbooks => exact hkept hregisters (congrArg _ hbooks)
  | found _ hregisters _ hbooks => exact hkept hregisters (congrArg _ hbooks)
  | made _ hregisters _ hbooks _ =>
    refine hkept hregisters ?_
    rw [hbooks, Option.map_map]
    rfl
  | @registered typeName decoder _ hregisters hbooks =>
    have hsome : home < before.books.length := by rwa [Engine.books, List.length_map]
    have hbefore := h other
    rw [hdecoder, List.getElem?_eq_getElem hsome] at hbefore
    rw [hdecoder, hbooks, List.getElem?_eq_getElem hsome, hregisters, Option.toList_some,
      List.reverse_append, List.reverse_singleton, List.singleton_append, List.lookup_cons]
    simp only [Option.map_some, Option.bind_some, Decoders.find?_register] at hbefore ⊢
    by_cases hother : other = typeName
    · simp [hother]
    · rw [if_neg hother, beq_eq_false_iff_ne.mpr hother, hbefore]

theorem Stocked.requestCustom_eq {known : List (String × Decoder V)} (h : Stocked home known engine)
    (key typeName : String) (fallback : V) :
    engine.requestCustom home key typeName fallback =
      match known.reverse.lookup typeName with
      | none => .error (.noDecoder typeName)
      | some decode => .ok (engine.request home key typeName fallback decode) := by
  rw [← h typeName]
  rfl

end

/-- What a search for a handle came to. -/
structure Note where
  key : String
  typeName : String
  found : Option HandleId

/-- The request that the search is for. -/
def Note.call (home : RegistryId) (note : Note) (fallback : V) (decode : Decoder V) : Call V :=
  .request home note.key note.typeName fallback decode

/-- A crew, and what its searches came to. -/
structure Desk (V : Type) where
  crew : Crew V
  notes : List Note := []

/-- No search has been made. -/
def Crew.desk (crew : Crew V) : Desk V where
  crew := crew

inductive Act (V : Type)
  | move (move : Move V)
  /-- The first step of a request. -/
  | search (key typeName : String)
  /-- The second step of a request, with what this search came to. -/
  | answer (search : Nat) (fallback : V) (decode : Decoder V)

def Act.registers? (home : RegistryId) : Act V → Option (String × Decoder V)
  | .move made => made.registers? home
  | _ => none

def registrations (home : RegistryId) (acts : List (Worker × Act V)) : List (String × Decoder V) :=
  acts.filterMap fun entry => entry.2.registers? home

/-- The decoder that has been registered last for a type. -/
def registered (home : RegistryId) (acts : List (Worker × Act V)) (typeName : String) :
    Option (Decoder V) :=
  (registrations home acts).reverse.lookup typeName

theorem registrations_cons (home : RegistryId) (worker : Worker) (act : Act V)
    (rest : List (Worker × Act V)) :
    registrations home ((worker, act) :: rest) =
      (act.registers? home).toList ++ registrations home rest := by
  rw [registrations, List.filterMap_cons]
  cases act.registers? home <;> rfl

namespace Desk

section
variable [BEq V]

def answer (desk : Desk V) (home : RegistryId) (worker : Worker) (note : Note) (fallback : V)
    (decode : Decoder V) : HandleId × Engine V :=
  (desk.crew.view worker).answer note.found home note.key note.typeName fallback decode

/-- A request is answered where one could be made. -/
def act? (desk : Desk V) (home : RegistryId) (worker : Worker) : Act V → Option (Desk V)
  | .move move => (desk.crew.move? worker move).map fun crew => { desk with crew }
  | .search key typeName =>
    let note := ⟨key, typeName, (desk.crew.view worker).find? home key typeName⟩
    some { desk with notes := desk.notes ++ [note] }
  | .answer search fallback decode =>
    (desk.notes[search]?).bind fun note =>
      let call := note.call home fallback decode
      if desk.crew.permits worker (.call call) ∧ (desk.crew.view worker).isWaiting ∧
          (desk.crew.view worker).Allows call then
        let after := (desk.answer home worker note fallback decode).2
        some { desk with crew := desk.crew.leave worker (.call call) after }
      else none

def granted? (desk : Desk V) (home : RegistryId) (worker : Worker) : Act V → Option (Grant V)
  | .move move => (desk.crew.view worker).granted? home move
  | .search _ _ => none
  | .answer search fallback decode =>
    (desk.notes[search]?).map fun note =>
      ⟨{ registry := home, key := note.key, typeName := note.typeName, fallback, decode },
        (desk.answer home worker note fallback decode).1⟩

/-- The desk after these acts of workers, when all of them are possible. -/
def play? (desk : Desk V) (home : RegistryId) : List (Worker × Act V) → Option (Desk V)
  | [] => some desk
  | (worker, act) :: rest => (desk.act? home worker act).bind (·.play? home rest)

def grants (desk : Desk V) (home : RegistryId) : List (Worker × Act V) → List (Grant V)
  | [] => []
  | (worker, act) :: rest =>
    (desk.act? home worker act).elim [] fun next =>
      (desk.granted? home worker act).toList ++ next.grants home rest

end

/-- What is known of a registry's books, and of the searches in it. -/
structure Accounts (home : RegistryId) (granted : List (Grant V))
    (known : List (String × Decoder V)) (desk : Desk V) : Prop where
  there : home < desk.crew.engine.registries.length
  ledger : Ledger home granted desk.crew.engine
  stocked : Stocked home known desk.crew.engine
  noted : ∀ note ∈ desk.notes, ∀ id ∈ note.found, id ∈ desk.crew.engine.listed home ∧
    desk.crew.engine.pairAt? id = some (note.key, note.typeName)

section
variable {desk next finish : Desk V} {crew : Crew V} {worker : Worker} {move : Move V}
  {act : Act V} {acts : List (Worker × Act V)} {home : RegistryId} {granted : List (Grant V)}
  {known : List (String × Decoder V)} {key typeName : String}

theorem spares_view (crew : Crew V) (worker : Worker) : crew.engine.Spares (crew.view worker) :=
  Engine.spares_of_eq rfl rfl

theorem Accounts.view (h : Accounts home granted known desk) (worker : Worker) :
    Ledger home granted (desk.crew.view worker) ∧ Stocked home known (desk.crew.view worker) :=
  ⟨h.ledger.keep (spares_view desk.crew worker).toRetains rfl, h.stocked⟩

variable [BEq V]

/-- A request for a type that has no decoder changes nothing. -/
theorem Accounts.refuses (h : Accounts home granted known desk) {fallback : V}
    (hnone : known.reverse.lookup typeName = none)
    (hmove : desk.crew.move? worker (.call (.requestCustom home key typeName fallback)) =
      some crew) :
    crew.engine.handles = desk.crew.engine.handles ∧
      crew.engine.registries = desk.crew.engine.registries := by
  obtain ⟨-, after, hafter, rfl⟩ := Crew.move?_eq_some.mp hmove
  obtain ⟨-, hstart⟩ := Option.ite_none_right_eq_some.mp hafter
  obtain rfl := Option.some.inj hstart
  have hdecoder : (desk.crew.view worker).decoder? home typeName = none :=
    ((h.view worker).2 typeName).trans hnone
  have hsame : (desk.crew.view worker).start (.requestCustom home key typeName fallback) =
      desk.crew.view worker := by
    rw [Engine.start, Engine.requestCustom_of_none hdecoder]
  rw [hsame]
  exact ⟨rfl, rfl⟩

-- ---------------------------------------------------------------------------
-- Acts
-- ---------------------------------------------------------------------------

theorem Accounts.of_move (h : Accounts home granted known desk)
    (hmove : desk.crew.move? worker move = some crew) :
    Accounts home (granted ++ ((desk.crew.view worker).granted? home move).toList)
      (known ++ (move.registers? home).toList) { desk with crew } := by
  obtain ⟨-, after, hafter, rfl⟩ := Crew.move?_eq_some.mp hmove
  have hretains := (Engine.does_of_move? hafter).retains
  obtain ⟨hledger, hstocked⟩ := h.view worker
  have hleave : after.Spares (desk.crew.leave worker move after).engine :=
    Engine.spares_of_eq rfl rfl
  have hbooked := Engine.booked_of_move? hafter h.there
  have hlater := hledger.booked hbooked h.there hretains
  refine ⟨?there, hlater.keep hleave.toRetains rfl, (hstocked.booked hbooked h.there :), ?noted⟩
  case there =>
    obtain ⟨later, hlater, -⟩ := hretains.registry home _ (List.getElem?_eq_getElem h.there)
    exact (List.getElem?_eq_some_iff.mp hlater).1
  case noted =>
    intro note hnote id hid
    obtain ⟨hmem, hpair⟩ := h.noted note hnote id hid
    have hstays : id ∈ after.listed home := hledger.stays hlater hmem
    exact ⟨hstays, hretains.pairAt? hpair⟩

omit [BEq V] in
theorem Accounts.of_search (h : Accounts home granted known desk) :
    Accounts home granted known { desk with notes := desk.notes ++
      [⟨key, typeName, (desk.crew.view worker).find? home key typeName⟩] } where
  there := h.there
  ledger := h.ledger
  stocked := h.stocked
  noted note hnote id hid := by
    rcases List.mem_append.mp hnote with hold | hlast
    · exact h.noted note hold id hid
    · obtain rfl := List.mem_singleton.mp hlast
      exact (Engine.of_find?_eq_some hid :)

/-- An answer is a request, whatever others have done since the search. -/
theorem Accounts.answer_eq (h : Accounts home granted known desk) {note : Note}
    (hnote : note ∈ desk.notes) (worker : Worker) (fallback : V) (decode : Decoder V) :
    desk.answer home worker note fallback decode =
      (desk.crew.view worker).request home note.key note.typeName fallback decode :=
  (h.view worker).1.answer_eq (h.noted note hnote) fallback decode

theorem Accounts.of_act (h : Accounts home granted known desk)
    (hact : desk.act? home worker act = some next) :
    Accounts home (granted ++ (desk.granted? home worker act).toList)
      (known ++ (act.registers? home).toList) next := by
  cases act with
  | move move =>
    obtain ⟨crew, hmove, rfl⟩ := Option.map_eq_some_iff.mp hact
    exact h.of_move hmove
  | search key typeName =>
    obtain rfl := Option.some.inj hact
    simpa [granted?, Act.registers?] using h.of_search
  | answer search fallback decode =>
    obtain ⟨note, hsearch, hanswer⟩ := Option.bind_eq_some_iff.mp hact
    obtain ⟨⟨hpermits, hstarts⟩, hnext⟩ := Option.ite_none_right_eq_some.mp hanswer
    obtain rfl := Option.some.inj hnext
    -- so it is one more request among the moves
    have hrequest := h.answer_eq (List.mem_of_getElem? hsearch) worker fallback decode
    have hmove : desk.crew.move? worker (.call (note.call home fallback decode)) =
        some (desk.crew.leave worker (.call (note.call home fallback decode))
          ((desk.crew.view worker).start (note.call home fallback decode))) := by
      rw [Crew.move?, if_pos hpermits, Engine.move?, if_pos hstarts, Option.map_some]
    have hgranted : desk.granted? home worker (.answer search fallback decode) =
        (desk.crew.view worker).granted? home (.call (note.call home fallback decode)) := by
      rw [granted?, hsearch, Option.map_some, hrequest, Engine.granted?, Note.call, Engine.wanted?,
        if_pos rfl, Option.map_some]
    rw [hgranted, hrequest]
    exact h.of_move hmove

theorem Accounts.play (h : Accounts home granted known desk)
    (hplay : desk.play? home acts = some finish) :
    Accounts home (granted ++ desk.grants home acts) (known ++ registrations home acts) finish := by
  induction acts generalizing desk granted known with
  | nil =>
    obtain rfl := Option.some.inj hplay
    simpa [grants, registrations] using h
  | cons entry rest ih =>
    obtain ⟨worker, act⟩ := entry
    obtain ⟨next, hnext, hrest⟩ := Option.bind_eq_some_iff.mp hplay
    have hlater := ih (h.of_act hnext) hrest
    rw [grants, hnext, Option.elim_some, registrations_cons, ← List.append_assoc,
      ← List.append_assoc]
    exact hlater

end

variable [BEq V]

/-- A registry that has just been opened has granted nothing. -/
theorem accounts_opened {start opened : Crew V} {worker : Worker} {root : NodeId}
    {policy : Template.MissingPolicy} {delimiter : String} {eager : Bool}
    (hopen : start.move? worker (.call (.openRegistry root policy delimiter eager)) = some opened) :
    Accounts start.engine.registries.length [] [] opened.desk := by
  obtain ⟨-, after, hafter, rfl⟩ := Crew.move?_eq_some.mp hopen
  obtain ⟨-, hstart⟩ := Option.ite_none_right_eq_some.mp hafter
  obtain rfl := Option.some.inj hstart
  let registry : Registry V := { root, policy, delimiter, eager }
  have hregistries : ((start.view worker).openRegistry registry).2.registries =
      start.engine.registries ++ [registry] := Engine.registries_openRegistry
  let opened := start.leave worker (.call (.openRegistry root policy delimiter eager))
    ((start.view worker).openRegistry registry).2
  have hregistry : opened.engine.registryAt? start.engine.registries.length = some registry := by
    rw [Engine.registryAt?, show opened.engine.registries = _ from hregistries,
      List.getElem?_concat_length]
  have hlisted : opened.engine.listed start.engine.registries.length = [] := by
    rw [Engine.listed, hregistry]
    rfl
  refine ⟨(List.getElem?_eq_some_iff.mp hregistry).1, ⟨?granted, ?asked, ?distinct, ?first⟩,
    ?stocked, fun _ hnote => absurd hnote List.not_mem_nil⟩
  case granted => exact fun _ hgrant => absurd hgrant List.not_mem_nil
  case asked =>
    intro id hmem
    exact absurd (hlisted ▸ hmem) List.not_mem_nil
  case distinct => exact hlisted ▸ List.nodup_nil
  case first => exact fun _ _ _ hsplit => absurd hsplit (by simp)
  case stocked =>
    intro typeName
    exact congrArg (·.bind fun registry => registry.decoders.find? typeName) hregistry

/-- Over all acts of all workers, a handle is granted twice exactly where the same key and type
are asked for, and there are as many handles as keys and types that were. Each has the fallback
and the decoder it was first asked for with. A request for a custom type fails where no decoder
has been registered, and leaves all handles as they are; otherwise it goes to the decoder that
was registered last. -/
theorem handle_per_key_and_type {start opened : Crew V} {finish : Desk V} {worker : Worker}
    {root : NodeId} {policy : Template.MissingPolicy} {delimiter : String} {eager : Bool}
    {home : RegistryId} {acts : List (Worker × Act V)}
    (hopen : start.move? worker (.call (.openRegistry root policy delimiter eager)) = some opened)
    (hhome : start.engine.registries.length = home)
    (hplay : opened.desk.play? home acts = some finish) :
    (∀ grant ∈ opened.desk.grants home acts, ∀ later ∈ opened.desk.grants home acts,
        grant.handle = later.handle ↔
          grant.wanted.key = later.wanted.key ∧ grant.wanted.typeName = later.wanted.typeName) ∧
      (finish.crew.engine.listed home).length =
        ((opened.desk.grants home acts).map Grant.pair).toFinset.card ∧
      (∀ earlier grant later, opened.desk.grants home acts = earlier ++ grant :: later →
        grant.pair ∉ earlier.map Grant.pair →
          finish.crew.engine.bareAt? grant.handle = some grant.wanted) ∧
      ∀ asker key typeName fallback,
        ((finish.crew.view asker).requestCustom home key typeName fallback =
          match registered home acts typeName with
          | none => .error (.noDecoder typeName)
          | some decode =>
            .ok ((finish.crew.view asker).request home key typeName fallback decode)) ∧
        ∀ refused, registered home acts typeName = none →
          finish.crew.move? asker (.call (.requestCustom home key typeName fallback)) =
              some refused →
            refused.engine.handles = finish.crew.engine.handles ∧
              refused.engine.registries = finish.crew.engine.registries := by
  subst hhome
  have haccounts := (accounts_opened hopen).play hplay
  simp only [List.nil_append] at haccounts
  refine ⟨?same, haccounts.ledger.card_eq, haccounts.ledger.first,
    fun asker key typeName fallback => ⟨?custom, fun refused hnone hmove => ?refused⟩⟩
  case same =>
    intro grant hgrant later hlater
    rw [haccounts.ledger.handle_eq_iff hgrant hlater]
    exact Prod.mk_inj
  case custom => exact (haccounts.view asker).2.requestCustom_eq key typeName fallback
  case refused => exact haccounts.refuses hnone hmove

/-- Two workers search for a handle before either makes one, and they pass different fallbacks.
The decoder is registered late, and replaced between two answers. -/
def twoSearches : List (Worker × Act Nat) :=
  [(.caller 0, .move (.call (.requestCustom 0 "key" "number" 5))),
    (.caller 1, .move (.call (.registerDecoder 0 "number" fun _ => .ok 1))),
    (.caller 0, .search "key" "number"),
    (.caller 1, .search "key" "number"),
    (.caller 1, .answer 1 7 fun _ => .ok 1),
    (.caller 1, .move (.call (.registerDecoder 0 "number" fun _ => .ok 2))),
    (.caller 0, .answer 0 9 fun _ => .ok 1),
    (.caller 1, .move (.call (.requestCustom 0 "key" "number" 3))),
    (.caller 1, .move (.call (.request 0 "key" "size" 3 fun _ => .ok 4)))]

theorem handle_per_key_and_type_twoSearches : ∃ (start opened : Crew Nat) (finish : Desk Nat),
    ({} : Crew Nat).play? (Worker.does (.caller 0) [.call (.settable "leaf" .empty)]) = some start ∧
      start.move? (.caller 0) (.call (.openRegistry 0 .fail "," false)) = some opened ∧
      opened.desk.play? 0 twoSearches = some finish ∧
      (opened.desk.grants 0 twoSearches).map (·.handle) = [0, 0, 0, 1] ∧
      (finish.crew.engine.listed 0).length = 2 ∧
      (∃ first, (opened.desk.grants 0 twoSearches).head? = some first ∧ first.wanted.fallback = 7 ∧
        finish.crew.engine.bareAt? first.handle = some first.wanted) ∧
      ((finish.crew.view (.caller 0)).requestCustom 0 "key" "date" 0).toOption.isNone := by
  have hrun : (({} : Crew Nat).play?
      (Worker.does (.caller 0) [.call (.settable "leaf" .empty)])).any (fun start =>
        start.engine.registries.length = 0 &&
          (start.move? (.caller 0) (.call (.openRegistry 0 .fail "," false))).any fun opened =>
            (opened.desk.grants 0 twoSearches).map (·.handle) = [0, 0, 0, 1] &&
            (opened.desk.grants 0 twoSearches).map Grant.pair =
              [("key", "number"), ("key", "number"), ("key", "number"), ("key", "size")] &&
            (opened.desk.grants 0 twoSearches).map (·.wanted.fallback) = [7, 9, 3, 3] &&
            (opened.desk.play? 0 twoSearches).isSome) = true := by
    cbv
  simp only [Option.any_eq_true, Bool.and_eq_true, decide_eq_true_eq, Option.isSome_iff_exists]
    at hrun
  obtain ⟨start, hstart, hhome, opened, hopen, ⟨⟨hhandles, hpairs⟩, hfallbacks⟩, finish, hplay⟩ :=
    hrun
  obtain ⟨-, hcard, hfirst, hcustom⟩ := handle_per_key_and_type hopen hhome hplay
  refine ⟨start, opened, finish, hstart, hopen, hplay, hhandles, ?_, ?_, ?_⟩
  · rw [hcard, hpairs]
    decide
  · cases hgrants : opened.desk.grants 0 twoSearches with
    | nil => rw [hgrants] at hpairs; cases hpairs
    | cons first rest =>
      rw [hgrants] at hfallbacks
      exact ⟨first, rfl, (List.cons.inj hfallbacks).1, hfirst [] first rest hgrants List.not_mem_nil⟩
  · rw [(hcustom (.caller 0) "key" "date" 0).1,
      show registered 0 twoSearches "date" = none by decide]
    rfl

end Desk

end Overlay
