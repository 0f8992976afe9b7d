import ResourceGraph.Proofs.Url.Joining
import ResourceGraph.Store.Remote

/-!
# Where a record is asked for

A store behind a web address asks for a record at an address that it makes from that of the API, the
resource and the id. It is the address of this record and of no other, unless the address of the API
does not end with its path or the id or the resource is a step `.` or `..`. Of the client is assumed
that it sends a request where it is told to, keeps what is encoded, and takes the steps of a path.
-/

namespace ResourceGraph

open Url

/-- An address that tells how to get there. -/
structure Url.IsAbsolute (u : Url) : Prop where
  scheme : u.scheme ≠ ""
  host : u.host ≠ ""

namespace Http.Sender

variable {κ ε : Type} [Sender κ ε]

/-- What is assumed of the addresses that a client makes of texts. -/
structure Normalizes (c : κ) : Prop where
  /-- The steps `.` and `..` are removed from a path. -/
  undotted : ∀ {text u}, target c text = some u → ∀ x ∈ u.path, ¬ Dotted x
  /-- Encoded segments behind an absolute address are kept as they are, in the part in which the
  address ends, but for the steps that are removed from a path. -/
  below : ∀ {text u w} {segments : List String}, target c text = some u → u.IsAbsolute →
    segments ≠ [] → target c (text ++ "/" ++ "/".intercalate (segments.map step)) = some w →
    w = u.below segments

/-- An open client sends one request for a text that it takes for an address, and none for another. -/
def SendsOnce (c : κ) : Prop :=
  isOpen c = true → ∀ text, asked ((get text none).run c).2 = asked c ++ (target c text).toList

end Http.Sender

namespace RemoteStore

open Http.Sender

variable {κ ε : Type} [Http.Sender κ ε] [Exceptions ε]

/-- The addresses that a store asks for a record, one after the other. -/
def asked (s : RemoteStore κ) (resource id : String) : List Url :=
  (Http.Sender.asked ((find resource (.str id)).run s).2.client).drop
    (Http.Sender.asked s.client).length

omit [Exceptions ε] [Http.Sender κ ε] in
theorem run_bind_snd {α β : Type} (x : StateM (RemoteStore κ) α) {f : α → StateM (RemoteStore κ) β}
    (h : ∀ a s, ((f a).run s).2 = s) (s : RemoteStore κ) : ((x >>= f).run s).2 = (x.run s).2 :=
  h (x.run s).1 (x.run s).2

/-- What a store does with an answer sends nothing more. -/
theorem find_client (s : RemoteStore κ) (resource : String) (id : Value) :
    ((find resource id).run s).2.client
      = ((get (s.addressText [resource, id.plain]) none).run s.client).2 := by
  unfold find
  refine congrArg RemoteStore.client (run_bind_snd _ (fun outcome _ => ?_) s)
  split
  · rfl
  · split <;> rfl

theorem asked_eq {s : RemoteStore κ} (sends : SendsOnce s.client)
    (opened : isOpen s.client = true) (resource id : String) :
    s.asked resource id = (target s.client (s.addressText [resource, id])).toList := by
  rw [asked, find_client, show (Value.str id).plain = id from rfl, sends opened, List.drop_left]

theorem addressText_eq (s : RemoteStore κ) (resource id : String) :
    s.addressText [resource, id] = s.base ++ "/" ++ (step resource ++ "/" ++ step id) := by
  rw [addressText, List.map_cons, List.map_cons, List.map_nil, String.intercalate_cons_cons,
    String.intercalate_singleton]

/-- What is asked for a record is below the address of the API. -/
theorem eq_below_of_mem_asked {s : RemoteStore κ} (sends : SendsOnce s.client)
    (normalizes : Normalizes s.client) {base : Url} (read : target s.client s.base = some base)
    (absolute : base.IsAbsolute) (opened : isOpen s.client = true) {resource id : String} {u : Url}
    (hu : u ∈ s.asked resource id) : u = base.below [resource, id] := by
  rw [asked_eq sends opened, Option.mem_toList] at hu
  exact normalizes.below read absolute (List.cons_ne_nil _ _) hu

/-- An API with an address asks for a record at the address that the client makes of the text of its
own, the encoded resource and the encoded id, with slashes between them; nothing is asked if the
client takes this for no address. It addresses exactly this record if and only if the address of the
API has no query and no fragment and neither the resource nor the id is a step that is taken, and if
neither is then no other record is asked for there. -/
theorem find_addresses_iff {s : RemoteStore κ} (sends : SendsOnce s.client)
    (normalizes : Normalizes s.client) {base : Url} (read : target s.client s.base = some base)
    (absolute : base.IsAbsolute) (opened : isOpen s.client = true) (resource id : String) :
    s.asked resource id
        = (target s.client (s.base ++ "/" ++ (step resource ++ "/" ++ step id))).toList ∧
      ∀ u ∈ s.asked resource id,
        (Addresses base u resource id ↔
          (base.query = none ∧ base.fragment = none) ∧ ¬ Dotted resource ∧ ¬ Dotted id) ∧
        (¬ Dotted resource → ¬ Dotted id → ∀ resource' id', u ∈ s.asked resource' id' →
          resource' = resource ∧ id' = id) := by
  have path := normalizes.undotted read
  have below {resource id : String} {u : Url} (hu : u ∈ s.asked resource id) :
      u = base.below [resource, id] :=
    eq_below_of_mem_asked sends normalizes read absolute opened hu
  refine ⟨addressText_eq s resource id ▸ asked_eq sends opened resource id, fun u hu => ?_⟩
  cases below hu
  exact ⟨addresses_below_iff path, fun hr hi _ _ same => below_injective path hr hi (below same).symm⟩

/-! ## A client with prepared replies -/

theorem sendsOnce_client (c : Http.Client) : SendsOnce c := by
  intro opened text
  have closed : c.isClosed = false := by
    rw [← Bool.not_eq_true']
    exact opened
  show (Http.Client.get (.ofText text) c).2.sent.map _ = c.sent.map _ ++ [_]
  rw [Http.Client.get, closed]
  exact List.map_append ..

theorem normalizes_client (c : Http.Client) : Normalizes c where
  undotted read := by
    cases read
    exact ofText_not_dotted _
  below read absolute some_segment below := by
    cases read
    cases below
    exact ofText_below some_segment absolute.host

/-- The address of an API without a path. -/
def siteUrl : Url := { scheme := "http", host := "api" }

theorem address_site : target (withClient "http://api" ({} : Http.Client)).client
    (withClient "http://api" ({} : Http.Client)).base = some siteUrl := by
  decide +kernel

theorem isAbsolute_site : siteUrl.IsAbsolute := ⟨by decide, by decide⟩

theorem slashed_addressed : ∃ u,
    (withClient "http://api" ({} : Http.Client)).asked "persons" "a/b" = [u] ∧
    u.text = "http://api/persons/a%2Fb" ∧ Addresses siteUrl u "persons" "a/b" ∧
    ∀ resource id, u ∈ (withClient "http://api" ({} : Http.Client)).asked resource id →
      resource = "persons" ∧ id = "a/b" := by
  obtain ⟨asked, all⟩ := find_addresses_iff (sendsOnce_client {}) (normalizes_client {})
    address_site isAbsolute_site rfl "persons" "a/b"
  rw [asked] at all
  obtain ⟨iff, once⟩ := all _ (List.mem_singleton_self _)
  refine ⟨_, asked, ?_, iff.mpr ⟨⟨rfl, rfl⟩, by decide, by decide⟩, once (by decide) (by decide)⟩
  decide +kernel

/-- The id of two dots is a step back from the resource. -/
theorem dots_not_addressed : ¬ ∀ (s : RemoteStore Http.Client) (base : Url) (resource id : String),
    target s.client s.base = some base → base.IsAbsolute → isOpen s.client = true →
      ∃ u, s.asked resource id = [u] ∧ Addresses base u resource id := by
  intro all
  obtain ⟨u, asked, addresses⟩ :=
    all (withClient "http://api" {}) siteUrl "persons" ".." address_site isAbsolute_site rfl
  have mem : u ∈ (withClient "http://api" ({} : Http.Client)).asked "persons" ".." := by
    rw [asked]
    exact List.mem_singleton_self u
  cases eq_below_of_mem_asked (sendsOnce_client {}) (normalizes_client {}) address_site
    isAbsolute_site rfl mem
  have plain := (addresses_below_iff ((normalizes_client {}).undotted address_site)).mp addresses
  exact plain.2.2 (Or.inr rfl)

end RemoteStore

end ResourceGraph
