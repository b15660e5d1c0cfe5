import Overlay.Proofs.Engine.Sweeps

/-!
# The books of a registry

A registry keeps a list of its handles and a collection of decoders. Both change by the
caller's word only: a request that finds no handle puts a new one at the end of the list,
and a registration puts in a decoder (`booked_of_move?`). All other moves, whatever they do
to trees, values and listeners, leave the books as they are.
-/

namespace Overlay

variable {V : Type}

/-- What handles are told apart by. -/
def Handle.pair (handle : Handle V) : String × String := (handle.key, handle.typeName)

def Registry.books (registry : Registry V) : List HandleId × Decoders V :=
  (registry.handles, registry.decoders)

/-- The decoder that is put into the registry, and its type. -/
def Move.registers? (home : RegistryId) : Move V → Option (String × Decoder V)
  | .call (.registerDecoder id typeName decoder) =>
    if id = home then some (typeName, decoder) else none
  | _ => none

namespace Engine

def books (engine : Engine V) : List (List HandleId × Decoders V) :=
  engine.registries.map Registry.books

/-- The decoder that is registered for a type. -/
def decoder? (engine : Engine V) (home : RegistryId) (typeName : String) : Option (Decoder V) :=
  (engine.registryAt? home).bind fun registry => registry.decoders.find? typeName

/-- What a handle has for good. -/
def bareAt? (engine : Engine V) (id : HandleId) : Option (Handle V) :=
  (engine.handleAt? id).map Handle.bare

def pairAt? (engine : Engine V) (id : HandleId) : Option (String × String) :=
  (engine.bareAt? id).map Handle.pair

/-- The handle that a request would make which is not refused. -/
def wanted? (engine : Engine V) (home : RegistryId) : Move V → Option (Handle V)
  | .call (.request id key typeName fallback decode) =>
    if id = home then some { registry := home, key, typeName, fallback, decode } else none
  | .call (.requestCustom id key typeName fallback) =>
    if id = home then
      (engine.decoder? home typeName).map fun decode =>
        { registry := home, key, typeName, fallback, decode }
    else none
  | _ => none

variable {engine before after : Engine V} {home : RegistryId} {id : HandleId}

theorem listed_eq_books (engine : Engine V) (home : RegistryId) :
    engine.listed home = ((engine.books[home]?).map Prod.fst).getD [] := by
  rw [books, List.getElem?_map, Option.map_map]
  rfl

theorem decoder?_eq_books (engine : Engine V) (home : RegistryId) (typeName : String) :
    engine.decoder? home typeName = (engine.books[home]?).bind fun books =>
      books.2.find? typeName := by
  rw [books, List.getElem?_map, Option.bind_map]
  rfl

theorem Retains.bareAt? (h : before.Retains after) {wanted : Handle V}
    (hwanted : before.bareAt? id = some wanted) : after.bareAt? id = some wanted := by
  obtain ⟨handle, hhandle, rfl⟩ := Option.map_eq_some_iff.mp hwanted
  obtain ⟨next, hnext, hbare⟩ := h.handle id handle hhandle
  rw [Engine.bareAt?, hnext, Option.map_some, hbare]

theorem Retains.pairAt? (h : before.Retains after) {pair : String × String}
    (hpair : before.pairAt? id = some pair) : after.pairAt? id = some pair := by
  obtain ⟨wanted, hwanted, rfl⟩ := Option.map_eq_some_iff.mp hpair
  rw [Engine.pairAt?, h.bareAt? hwanted, Option.map_some]

-- ---------------------------------------------------------------------------
-- Searching
-- ---------------------------------------------------------------------------

theorem suits_iff {key typeName : String} :
    engine.suits key typeName id = true ↔ engine.pairAt? id = some (key, typeName) := by
  rw [suits, pairAt?, bareAt?]
  cases engine.handleAt? id with
  | none => simp
  | some handle => simp [Handle.bare, Handle.pair]

theorem find?_eq_listed (engine : Engine V) (home : RegistryId) (key typeName : String) :
    engine.find? home key typeName = (engine.listed home).find? (engine.suits key typeName) := by
  rw [find?_eq, listed]
  cases engine.registryAt? home <;> rfl

theorem of_find?_eq_some {key typeName : String}
    (h : engine.find? home key typeName = some id) :
    id ∈ engine.listed home ∧ engine.pairAt? id = some (key, typeName) := by
  rw [find?_eq_listed] at h
  exact ⟨List.mem_of_find?_eq_some h, suits_iff.mp (List.find?_some h)⟩

theorem of_find?_eq_none {key typeName : String} (h : engine.find? home key typeName = none) :
    ∀ id ∈ engine.listed home, engine.pairAt? id ≠ some (key, typeName) := by
  intro id hmem hpair
  rw [find?_eq_listed] at h
  exact List.find?_eq_none.mp h id hmem (suits_iff.mpr hpair)

-- ---------------------------------------------------------------------------
-- Work that leaves the books alone
-- ---------------------------------------------------------------------------

theorem books_congr (h : after.registries = before.registries) : after.books = before.books :=
  congrArg (List.map Registry.books) h

theorem books_modifyRegistry {other : RegistryId} {f : Registry V → Registry V}
    (hf : ∀ registry, (f registry).books = registry.books) :
    (engine.modifyRegistry other f).books = engine.books := by
  have hsame : (engine.registries.modify other f).map Registry.books =
      (engine.registries.map Registry.books).modify other id :=
    map_modify fun registry _ => hf registry
  exact hsame.trans (List.modify_id _ _)

theorem books_enqueue {other : RegistryId} {task : Task V} :
    (engine.enqueue other task).books = engine.books :=
  books_modifyRegistry fun _ => rfl

theorem books_tell {node : NodeId} (subscriber : Subscriber) :
    (engine.tell node subscriber).books = engine.books := by
  cases subscriber with
  | link parent link =>
    refine books_congr ?_
    simp only [tell]
    split <;> rfl
  | registry id => exact books_enqueue
  | observer id => rfl

theorem books_edit {node : NodeId} {edit : Edit} :
    (engine.edit node edit).2.books = engine.books := by
  refine books_congr ?_
  simp only [Engine.edit]
  split <;> rfl

theorem books_attachUnique {parent node : NodeId} {name : String} :
    ((engine.attachUnique parent name node).toOption.getD engine).books = engine.books := by
  unfold attachUnique
  split <;> rfl

theorem books_detach {parent : NodeId} {name : String} :
    (engine.detach parent name).2.books = engine.books := by
  unfold detach
  split <;> rfl

theorem books_unlisten {listener : ListenerId} :
    (engine.unlisten id listener).2.books = engine.books := by
  unfold unlisten
  split <;> rfl

theorem books_absorb {poller : PollerId} {answer : Poll.Answer} :
    (engine.absorb poller answer).2.books = engine.books := by
  unfold absorb
  split
  · rfl
  · rfl
  · refine books_congr ?_
    dsimp only
    split <;> rfl

theorem books_reload {leaf : NodeId} {source : Poll.FileSource} {file : Option ByteArray} :
    (engine.reload leaf source file).2.books = engine.books := by
  unfold reload
  cases source.read file with
  | error _ => rfl
  | ok entries =>
    show (engine.edit leaf (.update (.snapshot entries))).2.books = engine.books
    exact books_edit

theorem books_openRegistry {registry : Registry V} :
    (engine.openRegistry registry).2.books = engine.books ++ [registry.books] := by
  rw [books, registries_openRegistry, List.map_append]
  rfl

theorem books_closeRegistry {other : RegistryId} :
    (engine.closeRegistry other).books = engine.books := by
  unfold Engine.closeRegistry
  split
  · rfl
  · exact (books_modifyRegistry (f := fun registry => { registry with closed := true })
      (fun _ => rfl) :)

theorem books_refresh {other : RegistryId} : (engine.refresh other).books = engine.books := by
  unfold Engine.refresh
  split
  · rfl
  · split
    · exact books_enqueue
    · rfl

theorem books_takeTask {other : RegistryId} (h : engine.takeTask other = some after) :
    after.books = engine.books := by
  unfold takeTask at h
  split at h
  · cases h
  · split at h
    · cases h
    · rename_i notice rest hqueue
      obtain rfl := Option.some.inj h
      exact (books_modifyRegistry (f := fun registry => { registry with queue := rest })
        (fun _ => rfl) :)
    · obtain rfl := Option.some.inj h
      exact (books_modifyRegistry (f := fun registry => { registry with queue := [] })
        (fun _ => rfl) :)

section
variable [BEq V]

theorem books_refreshHandle (engine : Engine V) (id : HandleId) :
    (engine.refreshHandle id).books = engine.books := by
  cases hreading : engine.reading? id with
  | none => rw [refreshHandle_of_none hreading]
  | some reading =>
    rcases refreshHandle_of_some hreading with heq | ⟨other, eager, notice, heq⟩
    · rw [heq]
      rfl
    · rw [heq]
      cases eager with
      | true => exact books_enqueue
      | false => rfl

theorem books_run {frame : Frame V} (h : engine.run frame = some after) :
    after.books = engine.books := by
  cases frame with
  | tell node subscribers =>
    cases subscribers with
    | nil =>
      obtain rfl := Option.some.inj h
      rfl
    | cons subscriber rest =>
      obtain rfl := Option.some.inj h
      exact books_tell subscriber
  | deliver notice =>
    obtain ⟨handle, event, listeners⟩ := notice
    cases listeners with
    | nil =>
      obtain rfl := Option.some.inj h
      rfl
    | cons listener rest =>
      obtain rfl := Option.some.inj h
      rfl
  | callback call => cases h
  | listen id listener =>
    obtain rfl := Option.some.inj h
    exact books_refreshHandle _ id
  | refresh ids =>
    cases ids with
    | nil =>
      obtain rfl := Option.some.inj h
      rfl
    | cons id rest =>
      simp only [run] at h
      split at h
      · obtain rfl := Option.some.inj h
        split
        · rfl
        · exact books_refreshHandle _ id
      · obtain rfl := Option.some.inj h
        rfl
  | pass id notices =>
    cases notices with
    | nil =>
      simp only [run] at h
      split at h
      · obtain rfl := Option.some.inj h
        split <;> rfl
      · obtain rfl := Option.some.inj h
        rfl
    | cons notice rest =>
      obtain rfl := Option.some.inj h
      rfl
  | settle poller checkpoint changed =>
    obtain rfl := Option.some.inj h
    refine books_congr ?_
    unfold settle
    split <;> rfl
  | keep node =>
    obtain rfl := Option.some.inj h
    rfl

-- ---------------------------------------------------------------------------
-- Requests and registrations
-- ---------------------------------------------------------------------------

/-- A request puts a handle into the list that is still missing. -/
theorem books_request (engine : Engine V) (id : RegistryId) (key typeName : String) (fallback : V)
    (decode : Decoder V) : (engine.request id key typeName fallback decode).2.books =
      if engine.find? id key typeName = none then
        engine.books.modify id fun books => (books.1 ++ [engine.handles.length], books.2)
      else engine.books := by
  unfold request
  split
  · rename_i handle hfind
    rw [if_neg (by simp [hfind]), books_refreshHandle]
  · rename_i hfind
    rw [if_pos hfind, books_refreshHandle]
    exact map_modify fun _ _ => rfl

theorem fst_request (engine : Engine V) (id : RegistryId) (key typeName : String) (fallback : V)
    (decode : Decoder V) : (engine.request id key typeName fallback decode).1 =
      (engine.find? id key typeName).getD engine.handles.length := by
  unfold request
  split
  · rename_i handle hfind
    rw [hfind, Option.getD_some]
  · rename_i hfind
    rw [hfind, Option.getD_none]

/-- What is made is what was wanted. -/
theorem bare_request {key typeName : String} {fallback : V} {decode : Decoder V}
    (hfind : engine.find? home key typeName = none) :
    (engine.request home key typeName fallback decode).2.bareAt? engine.handles.length =
      some { registry := home, key, typeName, fallback, decode } := by
  let made : Handle V := { registry := home, key, typeName, fallback, decode }
  have hmade : (engine.enroll made).handleAt? engine.handles.length = some made :=
    List.getElem?_concat_length
  have hrequest : (engine.request home key typeName fallback decode).2 =
      (engine.enroll made).refreshHandle engine.handles.length := by
    rw [request, hfind]
    rfl
  obtain ⟨next, hnext, hbare⟩ := (retains_refreshHandle _ _).1.handle _ made hmade
  rw [hrequest, bareAt?, hnext, Option.map_some, hbare]
  rfl

theorem requestCustom_of_none {key typeName : String} {fallback : V}
    (h : engine.decoder? home typeName = none) :
    engine.requestCustom home key typeName fallback = .error (.noDecoder typeName) := by
  rw [requestCustom, ← decoder?, h]

theorem requestCustom_of_some {key typeName : String} {fallback : V} {decode : Decoder V}
    (h : engine.decoder? home typeName = some decode) :
    engine.requestCustom home key typeName fallback =
      .ok (engine.request home key typeName fallback decode) := by
  rw [requestCustom, ← decoder?, h]

omit [BEq V] in
theorem books_registerDecoder (engine : Engine V) (id : RegistryId) (typeName : String)
    (decoder : Decoder V) : (engine.registerDecoder id typeName decoder).books =
      engine.books.modify id fun books => (books.1, books.2.register typeName decoder) :=
  map_modify fun _ _ => rfl

/-- What a move does to the books of a registry. -/
inductive Booked (home : RegistryId) (before : Engine V) (move : Move V) (after : Engine V) : Prop
  | quiet (hwanted : before.wanted? home move = none) (hregisters : move.registers? home = none)
      (hbooks : after.books[home]? = before.books[home]?)
  /-- A request finds a handle. -/
  | found {wanted : Handle V} {id : HandleId} (hwanted : before.wanted? home move = some wanted)
      (hregisters : move.registers? home = none)
      (hfind : before.find? home wanted.key wanted.typeName = some id)
      (hbooks : after.books[home]? = before.books[home]?)
  /-- A request makes a handle. -/
  | made {wanted : Handle V} (hwanted : before.wanted? home move = some wanted)
      (hregisters : move.registers? home = none)
      (hfind : before.find? home wanted.key wanted.typeName = none)
      (hbooks : after.books[home]? = (before.books[home]?).map fun books =>
        (books.1 ++ [before.handles.length], books.2))
      (hmade : after.bareAt? before.handles.length = some wanted)
  | registered {typeName : String} {decoder : Decoder V}
      (hwanted : before.wanted? home move = none)
      (hregisters : move.registers? home = some (typeName, decoder))
      (hbooks : after.books[home]? = (before.books[home]?).map fun books =>
        (books.1, books.2.register typeName decoder))

section
variable {other : RegistryId} {f : List HandleId × Decoders V → List HandleId × Decoders V}

omit [BEq V] in
theorem getElem?_books_self (h : after.books = before.books.modify home f) :
    after.books[home]? = (before.books[home]?).map f := by
  rw [h, List.getElem?_modify]
  simp

omit [BEq V] in
theorem getElem?_books_of_ne (h : after.books = before.books.modify other f)
    (hne : other ≠ home) : after.books[home]? = before.books[home]? := by
  rw [h, List.getElem?_modify]
  simp [hne]

end

theorem booked_request {move : Move V} {key typeName : String} {fallback : V} {decode : Decoder V}
    (hwanted : engine.wanted? home move =
      some { registry := home, key, typeName, fallback, decode })
    (hregisters : move.registers? home = none) :
    Booked home engine move (engine.request home key typeName fallback decode).2 := by
  have hbooks := books_request engine home key typeName fallback decode
  cases hfind : engine.find? home key typeName with
  | none =>
    rw [if_pos hfind] at hbooks
    exact .made hwanted hregisters hfind (getElem?_books_self hbooks) (bare_request hfind)
  | some id =>
    rw [if_neg (by simp [hfind])] at hbooks
    exact .found hwanted hregisters hfind (congrArg (·[home]?) hbooks)

/-- A request to another registry is none of this one's business. -/
theorem books_request_of_ne {other : RegistryId} {key typeName : String} {fallback : V}
    {decode : Decoder V} (h : other ≠ home) :
    (engine.request other key typeName fallback decode).2.books[home]? = engine.books[home]? := by
  have hbooks := books_request engine other key typeName fallback decode
  split at hbooks
  · exact getElem?_books_of_ne hbooks h
  · rw [hbooks]

theorem booked_start (call : Call V) (hhome : home < before.registries.length) :
    Booked home before (.call call) (before.start call) := by
  have hquiet {after : Engine V} (hwanted : before.wanted? home (.call call) = none)
      (hregisters : (Move.call call).registers? home = none) (hbooks : after.books = before.books) :
      Booked home before (.call call) after := .quiet hwanted hregisters (hbooks ▸ rfl)
  cases call with
  | request id key typeName fallback decode =>
    by_cases hid : id = home
    · subst hid
      exact booked_request (if_pos rfl) rfl
    · exact .quiet (if_neg hid) rfl (books_request_of_ne hid)
  | requestCustom id key typeName fallback =>
    cases hdecoder : before.decoder? id typeName with
    | none =>
      have hwanted : before.wanted? home (.call (.requestCustom id key typeName fallback)) = none := by
        by_cases hid : id = home
        · subst hid
          simp [wanted?, hdecoder]
        · exact if_neg hid
      rw [start, requestCustom_of_none hdecoder]
      exact hquiet hwanted rfl rfl
    | some decode =>
      rw [start, requestCustom_of_some hdecoder]
      by_cases hid : id = home
      · subst hid
        exact booked_request (by simp [wanted?, hdecoder]) rfl
      · exact .quiet (if_neg hid) rfl (books_request_of_ne hid)
  | registerDecoder id typeName decoder =>
    have hbooks := books_registerDecoder before id typeName decoder
    by_cases hid : id = home
    · subst hid
      exact .registered rfl (if_pos rfl) (getElem?_books_self hbooks)
    · exact .quiet rfl (if_neg hid) (getElem?_books_of_ne hbooks hid)
  | openRegistry root policy delimiter eager =>
    refine .quiet rfl rfl ?_
    have hlength : home < before.books.length := by rwa [books, List.length_map]
    exact (congrArg (·[home]?) books_openRegistry).trans (List.getElem?_append_left hlength)
  | closeRegistry id => exact hquiet rfl rfl books_closeRegistry
  | edit node edit => exact hquiet rfl rfl books_edit
  | read handle => exact hquiet rfl rfl (books_refreshHandle _ handle)
  | listen handle listener => exact hquiet rfl rfl (books_refreshHandle _ handle)
  | attachUnique parent name node => exact hquiet rfl rfl books_attachUnique
  | detach parent name => exact hquiet rfl rfl books_detach
  | unlisten handle listener => exact hquiet rfl rfl books_unlisten
  | refresh id => exact hquiet rfl rfl books_refresh
  | absorb poller answer => exact hquiet rfl rfl books_absorb
  | reload leaf source file => exact hquiet rfl rfl books_reload
  | _ => exact hquiet rfl rfl rfl

/-- The books change by requests and registrations alone. -/
theorem booked_of_move? {move : Move V} (h : before.move? move = some after)
    (hhome : home < before.registries.length) : Booked home before move after := by
  cases move with
  | call call =>
    obtain ⟨-, hstart⟩ := Option.ite_none_right_eq_some.mp h
    obtain rfl := Option.some.inj hstart
    exact booked_start call hhome
  | step =>
    refine .quiet rfl rfl (congrArg (·[home]?) ?_)
    simp only [move?, step] at h
    split at h
    · cases h
    · exact (books_run h :)
  | resume =>
    obtain ⟨-, hresume⟩ := Option.ite_none_right_eq_some.mp h
    obtain rfl := Option.some.inj hresume
    refine .quiet rfl rfl (congrArg (·[home]?) (books_congr ?_))
    unfold Engine.resume
    split <;> rfl
  | wake id =>
    refine .quiet rfl rfl (congrArg (·[home]?) ?_)
    simp only [move?] at h
    split at h
    · exact books_takeTask h
    · cases h

end

end Engine

end Overlay
