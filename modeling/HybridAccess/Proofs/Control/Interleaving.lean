/-
  HybridAccess — replies of the two tunnels in any order.

  Two threads receive the packets of the two links, and their packets meet in
  one queue. An answer to a hello and a refused request (`IsReply`) concern one
  tunnel: such a packet reads the key of the session and the link of its tunnel,
  and changes that link only (`IsReply.acts`). A link can therefore not tell
  whether the packets about the other tunnel are there (`link_afterAll_filter`).
  Main statement: `tunnels_commute`.
-/
import Mathlib.Data.List.Sort
import Mathlib.Logic.Equiv.Basic
import HybridAccess.Proofs.Control.Links

namespace HybridAccess.Control

open Message (Kind)

/-- A packet that is handed over, and the uptime at which it is acted on. -/
structure Delivery where
  packet : Bytes
  now : Duration
deriving DecidableEq, Repr

namespace Delivery

/-- The tunnel that a packet is about, none if it cannot be read. -/
def tunnel? (d : Delivery) : Option Tunnel :=
  (Message.decode d.packet).toOption.map (·.tunnel)

/-- A packet that answers a hello or refuses a request, or that cannot be read. -/
def IsReply (d : Delivery) : Prop :=
  ∀ m, Message.decode d.packet = .ok m → m.kind = .hello ∨ m.kind = .deny

instance (d : Delivery) : Decidable d.IsReply :=
  match hm : Message.decode d.packet with
  | .ok m => decidable_of_iff (m.kind = .hello ∨ m.kind = .deny)
      ⟨fun h _ hm' => Except.ok.inj (hm.symm.trans hm') ▸ h, fun h => h m hm⟩
  | .error _ => isTrue fun _ hm' => nomatch hm.symm.trans hm'

/-- The state behind a packet. -/
def state (d : Delivery) (s : State) : State := after s d.packet d.now

/-- What the packet is found to be. -/
def result (d : Delivery) (s : State) : Except PacketError Kind :=
  (process s d.packet d.now).map (·.1)

end Delivery

/-- The state behind a list of packets. -/
def afterAll (s : State) (ds : List Delivery) : State := ds.foldl (fun s d => d.state s) s

/-- What the packet at a place of the list is found to be, behind the packets before it. -/
def resultAt (s : State) (ds : List Delivery) (i : Fin ds.length) : Except PacketError Kind :=
  (ds.get i).result (afterAll s (ds.take i))

/-- The same packets stand in both lists, each one at the place to which `order` leads, and those
about one tunnel stand in the same order. -/
structure Interleaved (ds es : List Delivery) (order : Fin ds.length ≃ Fin es.length) : Prop where
  same : ∀ i, es.get (order i) = ds.get i
  kept : ∀ i j t, i < j → (ds.get i).tunnel? = some t → (ds.get j).tunnel? = some t →
    order i < order j

/-! ## One packet -/

namespace Delivery
variable {d : Delivery} {s s' : State} {t : Tunnel}

/-- Of the state, the key alone decides what a packet is found to be. -/
theorem result_congr (h : s.session.key = s'.session.key) (d : Delivery) :
    d.result s = d.result s' := by
  have hsame : authorized s d.packet = authorized s' d.packet := by simp only [authorized, h]
  rw [result, result, process, process, hsame]
  cases authorized s' d.packet <;> rfl

/-- **A reply is refused, or it changes the link of its tunnel.** In which way depends on the key of
the session alone. -/
theorem IsReply.acts (hd : d.IsReply) (key : UInt32) :
    (∀ s, s.session.key = key → d.state s = s) ∨
    ∃ t f, d.tunnel? = some t ∧ ∀ s, s.session.key = key → d.state s = s.updateLink t f := by
  cases hm : Message.decode d.packet with
  | error e =>
    refine Or.inl fun s _ => ?_
    rw [state, after, Controller.process_of_decode_error hm]
  | ok m =>
    have hkind : m.kind ≠ .accept := by rcases hd m hm with hk | hk <;> rw [hk] <;> decide
    by_cases hkey : m.key = key
    · have hstate : ∀ s : State, s.session.key = key → d.state s = apply s m d.now := fun s hs => by
        have he : Entitled s m := Or.inl (hkey.trans hs.symm)
        rw [state, after, process_of_authorized (authorized_eq_ok.2 ⟨hm, he⟩)]
      have htunnel : d.tunnel? = some m.tunnel := by simp [tunnel?, hm, Except.toOption]
      rcases hd m hm with hk | hk
      · refine Or.inr ⟨m.tunnel, fun l => m.attributes.foldl (helloAttribute d.now) l, htunnel,
          fun s hs => ?_⟩
        rw [hstate s hs, apply, hk]
      · refine Or.inr ⟨m.tunnel, denyLink, htunnel, fun s hs => ?_⟩
        rw [hstate s hs, apply, hk]
    · refine Or.inl fun s hs => ?_
      rw [state, after, Controller.process_of_not_entitled hm hkind (hs ▸ hkey)]

theorem IsReply.rest (hd : d.IsReply) (s : State) :
    d.state s = { s with lte := (d.state s).lte, dsl := (d.state s).dsl } := by
  rcases hd.acts s.session.key with h | ⟨t, f, -, h⟩
  · rw [h s rfl]
  · rw [h s rfl]; cases t <;> rfl

/-- A reply about another tunnel does not touch the link. -/
theorem IsReply.link_of_ne (hd : d.IsReply) (s : State) (ht : d.tunnel? ≠ some t) :
    (d.state s).link t = s.link t := by
  rcases hd.acts s.session.key with h | ⟨t', f, ht', h⟩
  · rw [h s rfl]
  · have hne : t ≠ t' := fun he => ht (he ▸ ht')
    rw [h s rfl, link_updateLink, if_neg hne]

/-- The key and the link decide what becomes of the link. -/
theorem IsReply.link_congr (hd : d.IsReply) (hkey : s.session.key = s'.session.key)
    (hlink : s.link t = s'.link t) : (d.state s).link t = (d.state s').link t := by
  rcases hd.acts s.session.key with h | ⟨t', f, -, h⟩
  · rw [h s rfl, h s' hkey.symm, hlink]
  · rw [h s rfl, h s' hkey.symm, link_updateLink, link_updateLink, hlink]

end Delivery

/-! ## All packets -/

section
variable {ds es : List Delivery}

theorem afterAll_rest (hds : ∀ d ∈ ds, d.IsReply) (s : State) :
    afterAll s ds = { s with lte := (afterAll s ds).lte, dsl := (afterAll s ds).dsl } := by
  induction ds generalizing s with
  | nil => rfl
  | cons d ds ih =>
    have hfirst := (hds d List.mem_cons_self).rest s
    have hrest := ih (fun e he => hds e (List.mem_cons_of_mem d he)) (d.state s)
    rw [hfirst] at hrest
    rw [afterAll, List.foldl_cons, hfirst]
    exact hrest

/-- **A link does not tell whether the packets about the other tunnel are there.** -/
theorem link_afterAll_filter (hds : ∀ d ∈ ds, d.IsReply) {s s' : State} {t : Tunnel}
    (hkey : s.session.key = s'.session.key) (hlink : s.link t = s'.link t) :
    (afterAll s ds).link t =
      (afterAll s' (ds.filter fun d => d.tunnel? = some t)).link t := by
  induction ds generalizing s s' with
  | nil => exact hlink
  | cons d ds ih =>
    have hd := hds d List.mem_cons_self
    have hds' : ∀ e ∈ ds, e.IsReply := fun e he => hds e (List.mem_cons_of_mem d he)
    have hsession : ∀ s, (d.state s).session.key = s.session.key := fun s =>
      congrArg (·.session.key) (hd.rest s)
    by_cases ht : d.tunnel? = some t
    · rw [List.filter_cons_of_pos (by simpa using ht)]
      refine ih hds' ?_ (hd.link_congr hkey hlink)
      rw [hsession, hsession, hkey]
    · rw [List.filter_cons_of_neg (by simpa using ht)]
      refine ih hds' ?_ ((hd.link_of_ne s ht).trans hlink)
      rw [hsession, hkey]

/-- What stands in the same order in both lists is the same list. -/
theorem filter_eq_of_order {β : Type} {xs ys : List β} {p : β → Bool}
    (order : Fin xs.length ≃ Fin ys.length) (hsame : ∀ i, ys.get (order i) = xs.get i)
    (hkept : ∀ i j, i < j → p (xs.get i) = true → p (xs.get j) = true → order i < order j) :
    xs.filter p = ys.filter p := by
  have hplaces : ∀ zs : List β,
      zs.filter p = ((List.finRange zs.length).filter (p ∘ zs.get)).map zs.get := fun zs => by
    rw [← List.filter_map, List.map_get_finRange]
  -- the places of the members, taken over from `xs` to `ys`, ascend like those in `ys`
  have horder : ((List.finRange xs.length).filter (p ∘ xs.get)).map order =
      (List.finRange ys.length).filter (p ∘ ys.get) := by
    refine List.Pairwise.eq_of_mem_iff (r := (· < ·)) ?_
      ((List.pairwise_lt_finRange _).filter _) fun j => ?_
    · refine List.pairwise_map.2 (((List.pairwise_lt_finRange _).filter _).imp_of_mem ?_)
      intro i j hi hj hij
      exact hkept i j hij (List.mem_filter.1 hi).2 (List.mem_filter.1 hj).2
    · simp only [List.mem_map, List.mem_filter, List.mem_finRange, true_and, Function.comp_apply]
      constructor
      · rintro ⟨i, hi, rfl⟩
        rwa [hsame]
      · intro hj
        refine ⟨order.symm j, ?_, order.apply_symm_apply j⟩
        rwa [← hsame, order.apply_symm_apply]
  rw [hplaces xs, hplaces ys, ← horder, List.map_map]
  exact List.map_congr_left fun i _ => (hsame i).symm

/-- **The replies of the two tunnels commute.** If the packets about each tunnel keep their order,
it makes no difference how the two tunnels and the packets that cannot be read are interleaved: the
same state comes out, and each packet is found to be the same. -/
theorem tunnels_commute (s : State) (order : Fin ds.length ≃ Fin es.length)
    (h : Interleaved ds es order) (hreply : ∀ d ∈ ds, d.IsReply) :
    afterAll s ds = afterAll s es ∧ ∀ i, resultAt s ds i = resultAt s es (order i) := by
  have hreply' : ∀ e ∈ es, e.IsReply := fun e he => by
    obtain ⟨j, rfl⟩ := List.get_of_mem he
    have hsame := h.same (order.symm j)
    rw [order.apply_symm_apply] at hsame
    rw [hsame]
    exact hreply _ (List.get_mem ds _)
  constructor
  · have hlink : ∀ t, (afterAll s ds).link t = (afterAll s es).link t := fun t => by
      have hfilter : ds.filter (fun d => d.tunnel? = some t) =
          es.filter (fun d => d.tunnel? = some t) :=
        filter_eq_of_order order h.same fun i j hij hi hj =>
          h.kept i j t hij (of_decide_eq_true hi) (of_decide_eq_true hj)
      have hown : ∀ fs : List Delivery, (∀ d ∈ fs, d.IsReply) → (afterAll s fs).link t =
          (afterAll s (fs.filter fun d => d.tunnel? = some t)).link t := fun fs hfs =>
        link_afterAll_filter hfs rfl rfl
      rw [hown ds hreply, hown es hreply', hfilter]
    rw [afterAll_rest hreply, afterAll_rest hreply' s]
    exact congrArg₂ (fun l l' => { s with lte := l, dsl := l' }) (hlink .lte) (hlink .dsl)
  · intro i
    have hkey : ∀ (fs : List Delivery) (n : Nat), (∀ d ∈ fs, d.IsReply) →
        (afterAll s (fs.take n)).session.key = s.session.key := fun fs n hfs =>
      congrArg (·.session.key) (afterAll_rest (fun d hd => hfs d (List.mem_of_mem_take hd)) s)
    rw [resultAt, resultAt, h.same]
    exact Delivery.result_congr ((hkey ds i hreply).trans (hkey es (order i) hreply').symm) _

end

/-- The answer to a cellular hello, a refused broadband request, half a header, and a refused
cellular request; and the same packets in another order. -/
theorem tunnels_commute_around_a_refusal :
    let s := (State.ofConfig .default).updateLink .dsl fun l => { l with status := .requesting }
    let control : Bytes := [0x20, 0, 1, 1, 0, 0, 0, 0]
    let hello : Delivery := ⟨control ++ [0x40, 5, 0, 8, 0, 0, 0, 2, 0, 0, 0, 0], .ofSeconds 3⟩
    let refusal : Delivery := ⟨control ++ [0x38], .ofSeconds 4⟩
    let half : Delivery := ⟨[0x20, 0, 1, 1], .ofSeconds 5⟩
    let late : Delivery := ⟨control ++ [0x30], .ofSeconds 6⟩
    let ds := [hello, refusal, half, late]
    let es := [refusal, hello, late, half]
    let order : Fin 4 ≃ Fin 4 := (Equiv.swap 0 1).trans (Equiv.swap 2 3)
    Interleaved ds es order ∧ (∀ d ∈ ds, d.IsReply) ∧
    (afterAll s ds).lte.roundTrip = .ofSeconds 1 ∧ (afterAll s ds).dsl.status = .down ∧
    afterAll s ds = afterAll s es ∧
    ∀ i : Fin 4, resultAt s ds i = resultAt s es (order i) := by
  intro s control hello refusal half late ds es order
  have h : Interleaved ds es order := by
    refine ⟨by decide +kernel, fun i j t => ?_⟩
    cases t
    · revert i j; decide +kernel
    · revert i j; decide +kernel
  have hreply : ∀ d ∈ ds, d.IsReply := by decide +kernel
  obtain ⟨hstate, hresult⟩ := @tunnels_commute ds es s order h hreply
  exact ⟨h, hreply, by decide +kernel, by decide +kernel, hstate, hresult⟩

end HybridAccess.Control
