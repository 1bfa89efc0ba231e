import Mathlib.Logic.Relation
import IdemIp.Nd6

/-!
# What the Neighbor Discovery calls can do to the tables

Each change of the tables is one of a few moves: a row is taken, rewritten or given
back, under the condition the code has established by then. A call that queues or
hands back no frame is a sequence of moves, and a sweep is one around at most one
frame.
-/

namespace IdemIp.Nd6

section Tables

open IndexChain Relation Function

/-- Nothing but values the tables do not hang on: a neighbor keeps its address, its queue and a router flag it has. -/
structure Quiet (w w' : Work) : Prop where
  used : ∀ i,(w'.neighbor i).used=(w.neighbor i).used
  addr : ∀ i,(w'.neighbor i).addr=(w.neighbor i).addr
  head : ∀ i,(w'.neighbor i).pendingHead=(w.neighbor i).pendingHead
  flag : ∀ i,(w.neighbor i).isRouter → (w'.neighbor i).isRouter
  destination : w'.destination=w.destination
  router : w'.router=w.router
  prefixes : ∀ i,(w'.prefixAt i).used=(w.prefixAt i).used
  pending : w'.pending=w.pending
  counts : w'.ctx.neighbors=w.ctx.neighbors ∧ w'.ctx.destinations=w.ctx.destinations ∧
    w'.ctx.prefixes=w.ctx.prefixes ∧ w'.ctx.routers=w.ctx.routers ∧ w'.ctx.pendings=w.ctx.pendings

/-- The kinds of moves. -/
inductive Kind
  | quiet | addNeighbor | dropNeighbor | demote | addDestination | setDestination | dropDestination
  | addPrefix | dropPrefix | addRouter | setRouter | dropRouter
deriving DecidableEq

/-- Moves that take no neighbor away and no router flag. -/
def Kind.calm (k : Kind) : Bool := k != .dropNeighbor && k != .demote

/-- Moves that only give rows back. -/
def Kind.cuts (k : Kind) : Bool :=
  k==.quiet || k==.dropNeighbor || k==.dropDestination || k==.dropPrefix || k==.dropRouter

/-- Moves of destinations and prefixes alone. -/
def Kind.mild (k : Kind) : Bool :=
  k==.quiet || k==.addDestination || k==.setDestination || k==.dropDestination || k==.addPrefix || k==.dropPrefix

/-- What a router that is listed may name. -/
def Names (cfg : Config) (w : Work) (r : Router) : Prop :=
  r.neighbor=none8 ∨
    (r.neighbor < cfg.nd6Neighbors ∧ (w.neighbor r.neighbor).used ∧ addrEq (w.neighbor r.neighbor).addr r.addr)

/-- No router and no destination in use names the neighbor. -/
def Unnamed (cfg : Config) (w : Work) (i : ℕ) : Prop :=
  (∀ r < cfg.nd6Routers,(w.router r).used → (w.router r).neighbor≠i) ∧
    ∀ d < cfg.nd6Destinations,(w.destination d).used → (w.destination d).neighbor≠i

/-- One change of the tables. -/
inductive Move (cfg : Config) : Kind → Work → Work → Prop
  | quiet {w w' : Work} (h : Quiet w w') : Move cfg .quiet w w'
  | addNeighbor {w : Work} {i : ℕ} {n : Neighbor} (hi : i < cfg.nd6Neighbors) (hfree : (w.neighbor i).used=false)
      (hnew : ∀ j < cfg.nd6Neighbors,(w.neighbor j).used → addrEq (w.neighbor j).addr n.addr=false)
      (hused : n.used) (hhead : n.pendingHead=none8) :
      Move cfg .addNeighbor w {w.setNeighbor i n with ctx := {w.ctx with neighbors := w.ctx.neighbors+1}}
  | dropNeighbor {w : Work} {i : ℕ} (hi : i < cfg.nd6Neighbors) (hused : (w.neighbor i).used)
      (hqueue : cfg.nd6Pending≤(w.neighbor i).pendingHead) (hun : Unnamed cfg w i) :
      Move cfg .dropNeighbor w {w.setNeighbor i {Neighbor.zero with pendingHead := none8} with
        ctx := {w.ctx with neighbors := w.ctx.neighbors-1}}
  | demote {w : Work} {i : ℕ} {n : Neighbor} (hused : n.used=(w.neighbor i).used) (haddr : n.addr=(w.neighbor i).addr)
      (hhead : n.pendingHead=(w.neighbor i).pendingHead) : Move cfg .demote w (w.setNeighbor i n)
  | addDestination {w : Work} {i : ℕ} {d : Destination} (hi : i < cfg.nd6Destinations)
      (hfree : (w.destination i).used=false) (hused : d.used) :
      Move cfg .addDestination w {w.setDestination i d with ctx := {w.ctx with destinations := w.ctx.destinations+1}}
  | setDestination {w : Work} {i : ℕ} {d : Destination} (hused : d.used=(w.destination i).used) :
      Move cfg .setDestination w (w.setDestination i d)
  | dropDestination {w : Work} {i : ℕ} (hi : i < cfg.nd6Destinations) (hused : (w.destination i).used) :
      Move cfg .dropDestination w (dropDestination w i)
  | addPrefix {w : Work} {i : ℕ} {p : Prefix} (hi : i < cfg.nd6Prefixes) (hfree : (w.prefixAt i).used=false)
      (hused : p.used) :
      Move cfg .addPrefix w {w.setPrefix i p with ctx := {w.ctx with prefixes := w.ctx.prefixes+1}}
  | dropPrefix {w : Work} {i : ℕ} (hi : i < cfg.nd6Prefixes) (hused : (w.prefixAt i).used) :
      Move cfg .dropPrefix w {w.setPrefix i .zero with ctx := {w.ctx with prefixes := w.ctx.prefixes-1}}
  | addRouter {w : Work} {i : ℕ} {r : Router} (hi : i < cfg.nd6Routers) (hfree : (w.router i).used=false)
      (hnew : ∀ j < cfg.nd6Routers,(w.router j).used → addrEq (w.router j).addr r.addr=false)
      (hused : r.used) (hnames : Names cfg w r) :
      Move cfg .addRouter w {w.setRouter i r with ctx := {w.ctx with routers := w.ctx.routers+1}}
  | setRouter {w : Work} {i : ℕ} {r : Router} (hi : i < cfg.nd6Routers) (hused : r.used=(w.router i).used) (haddr : r.addr=(w.router i).addr)
      (hnames : Names cfg w r) : Move cfg .setRouter w (w.setRouter i r)
  | dropRouter {w : Work} {i : ℕ} (hi : i < cfg.nd6Routers) (hused : (w.router i).used) :
      Move cfg .dropRouter w {w.setRouter i ⟨0,.zero,none8,false⟩ with
        ctx := {w.ctx with routers := w.ctx.routers-1}}

/-- A sequence of moves of certain kinds. -/
def Moves (cfg : Config) (ok : Kind → Bool) : Work → Work → Prop := ReflTransGen fun w w' => ∃ k,ok k ∧ Move cfg k w w'

variable {cfg : Config} {ok : Kind → Bool} {w w' w'' : Work}

theorem Moves.refl (w : Work) : Moves cfg ok w w := ReflTransGen.refl

theorem Moves.trans (h : Moves cfg ok w w') (h' : Moves cfg ok w' w'') : Moves cfg ok w w'' := ReflTransGen.trans h h'

theorem Move.moves {k : Kind} (h : Move cfg k w w') (hk : ok k) : Moves cfg ok w w' := ReflTransGen.single ⟨k,hk,h⟩

theorem Quiet.refl (w : Work) : Quiet w w :=
  ⟨fun _ => rfl,fun _ => rfl,fun _ => rfl,fun _ h => h,rfl,rfl,fun _ => rfl,rfl,rfl,rfl,rfl,rfl,rfl⟩

theorem Quiet.moves (h : Quiet w w') (hk : ok .quiet) : Moves cfg ok w w' := (Move.quiet h).moves hk

/-- What holds at first and is kept by every move of the kinds holds after a sequence of them. -/
theorem Moves.keeps (h : Moves cfg ok w w') {inv : Work → Prop}
    (hmv : ∀ k u u',ok k → Move cfg k u u' → inv u → inv u') (hw : inv w) : inv w' := by
  induction h with
  | refl => exact hw
  | tail _ hs ih =>
    obtain ⟨k,hk,hm⟩ := hs
    exact hmv k _ _ hk hm ih

theorem Moves.mono {ok' : Kind → Bool} (h : Moves cfg ok w w') (hk : ∀ k,ok k → ok' k) : Moves cfg ok' w w' :=
  h.keeps (fun k _ _ ho hm hu => hu.trans (hm.moves (hk k ho))) (Moves.refl w)

theorem quiet_of_eq (hn : w'.neighbor=w.neighbor) (hd : w'.destination=w.destination) (hr : w'.router=w.router)
    (hp : w'.prefixAt=w.prefixAt) (hq : w'.pending=w.pending)
    (hc : w'.ctx.neighbors=w.ctx.neighbors ∧ w'.ctx.destinations=w.ctx.destinations ∧
      w'.ctx.prefixes=w.ctx.prefixes ∧ w'.ctx.routers=w.ctx.routers ∧ w'.ctx.pendings=w.ctx.pendings) : Quiet w w' :=
  ⟨fun _ => by rw [hn],fun _ => by rw [hn],fun _ => by rw [hn],fun _ h => by rwa [hn],hd,hr,fun _ => by rw [hp],hq,hc⟩

theorem Quiet.trans (h : Quiet w w') (h' : Quiet w' w'') : Quiet w w'' := by
  obtain ⟨hcn,hcd,hcp,hcr,hcq⟩ := h.counts
  obtain ⟨hcn',hcd',hcp',hcr',hcq'⟩ := h'.counts
  exact ⟨fun i => (h'.used i).trans (h.used i),fun i => (h'.addr i).trans (h.addr i),fun i => (h'.head i).trans (h.head i),
    fun i hi => h'.flag i (h.flag i hi),h'.destination.trans h.destination,h'.router.trans h.router,
    fun i => (h'.prefixes i).trans (h.prefixes i),h'.pending.trans h.pending,
    hcn'.trans hcn,hcd'.trans hcd,hcp'.trans hcp,hcr'.trans hcr,hcq'.trans hcq⟩

variable {i : ℕ} {n : Neighbor}

/-- Rewriting a neighbor but for its address, its queue and a router flag it has. -/
theorem quiet_setNeighbor (hu : n.used=(w.neighbor i).used) (ha : n.addr=(w.neighbor i).addr)
    (hh : n.pendingHead=(w.neighbor i).pendingHead) (hf : (w.neighbor i).isRouter → n.isRouter) :
    Quiet w (w.setNeighbor i n) := by
  have hc : ∀ k,k=i ∧ (w.setNeighbor i n).neighbor k=n ∨ (w.setNeighbor i n).neighbor k=w.neighbor k := fun k => by
    by_cases hk : k=i
    · exact .inl ⟨hk,by rw [hk]; exact update_self _ _ _⟩
    · exact .inr (update_of_ne hk _ _)
  refine ⟨fun k => ?_,fun k => ?_,fun k => ?_,fun k hk => ?_,rfl,rfl,fun _ => rfl,rfl,rfl,rfl,rfl,rfl,rfl⟩
  · rcases hc k with ⟨rfl,h⟩|h
    · rw [h,hu]
    · rw [h]
  · rcases hc k with ⟨rfl,h⟩|h
    · rw [h,ha]
    · rw [h]
  · rcases hc k with ⟨rfl,h⟩|h
    · rw [h,hh]
    · rw [h]
  · rcases hc k with ⟨rfl,h⟩|h
    · rw [h]
      exact hf hk
    · rw [h]
      exact hk

section Addresses

variable {a b c : Octets}

theorem addrEq_iff : addrEq a b ↔ ∀ k<16,a k=b k := Octets.bytesEq_iff

theorem addrEq_symm (h : addrEq a b) : addrEq b a :=
  addrEq_iff.2 fun k hk => (addrEq_iff.1 h k hk).symm

theorem addrEq_trans (h : addrEq a b) (h' : addrEq b c) : addrEq a c :=
  addrEq_iff.2 fun k hk => (addrEq_iff.1 h k hk).trans (addrEq_iff.1 h' k hk)

theorem addrEq_padded (a b : Octets) : addrEq a (b.padded 16)=addrEq a b := Octets.bytesEq_padded

end Addresses

/-- Neighbors and routers have their own addresses, a router names its own neighbor, and the counts are right. -/
structure Tabled (cfg : Config) (w : Work) : Prop where
  distinct : ∀ i < cfg.nd6Neighbors,∀ j < cfg.nd6Neighbors,(w.neighbor i).used → (w.neighbor j).used →
    addrEq (w.neighbor i).addr (w.neighbor j).addr → i=j
  /-- A router names no neighbor or the one with its address. -/
  names : ∀ r < cfg.nd6Routers,(w.router r).used → Names cfg w (w.router r)
  listed : ∀ r < cfg.nd6Routers,∀ s < cfg.nd6Routers,(w.router r).used → (w.router s).used →
    addrEq (w.router r).addr (w.router s).addr → r=s
  /-- Each count is the number of rows in use. -/
  neighbors : w.ctx.neighbors=(List.range cfg.nd6Neighbors).countP fun i => (w.neighbor i).used
  destinations : w.ctx.destinations=(List.range cfg.nd6Destinations).countP fun i => (w.destination i).used
  prefixes : w.ctx.prefixes=(List.range cfg.nd6Prefixes).countP fun i => (w.prefixAt i).used
  routers : w.ctx.routers=(List.range cfg.nd6Routers).countP fun i => (w.router i).used

variable {r : Router}

theorem Names.congr (h : Names cfg w r) (hn : (w.neighbor r.neighbor).used → (w'.neighbor r.neighbor).used ∧
      (w'.neighbor r.neighbor).addr=(w.neighbor r.neighbor).addr) : Names cfg w' r := by
  rcases h with hnn|⟨hlt,hu,haddr⟩
  · exact .inl hnn
  · obtain ⟨hused',haddr'⟩ := hn hu
    exact .inr ⟨hlt,hused',by rwa [haddr']⟩

theorem Tabled.congr (h : Tabled cfg w) (hus : ∀ i,(w'.neighbor i).used=(w.neighbor i).used)
    (ha : ∀ i,(w'.neighbor i).addr=(w.neighbor i).addr) (hrt : w'.router=w.router)
    (hd : ∀ i,(w'.destination i).used=(w.destination i).used) (hpre : ∀ i,(w'.prefixAt i).used=(w.prefixAt i).used)
    (hc : w'.ctx.neighbors=w.ctx.neighbors ∧ w'.ctx.destinations=w.ctx.destinations ∧
      w'.ctx.prefixes=w.ctx.prefixes ∧ w'.ctx.routers=w.ctx.routers) : Tabled cfg w' := by
  obtain ⟨hcn,hcd,hcp,hcr⟩ := hc
  refine ⟨fun i hi j hj => ?_,fun r hr hu => ?_,?_,?_,?_,?_,?_⟩
  · rw [hus,hus,ha,ha]
    exact h.distinct i hi j hj
  · rw [hrt] at hu ⊢
    exact (h.names r hr hu).congr fun hn => ⟨by rw [hus,hn],ha _⟩
  · rw [hrt]
    exact h.listed
  · simp only [hcn,hus]
    exact h.neighbors
  · simp only [hcd,hd]
    exact h.destinations
  · simp only [hcp,hpre]
    exact h.prefixes
  · rw [hcr,hrt]
    exact h.routers

section Rows

theorem setNeighbor_self (w : Work) (i : ℕ) (n : Neighbor) : (w.setNeighbor i n).neighbor i=n := update_self _ _ _

variable {k : ℕ}

theorem setNeighbor_of_ne (w : Work) (n : Neighbor) (hk : k≠i) : (w.setNeighbor i n).neighbor k=w.neighbor k :=
  update_of_ne hk _ _

theorem setRouter_self (w : Work) (i : ℕ) (r : Router) : (w.setRouter i r).router i=r := update_self _ _ _

theorem setRouter_of_ne (w : Work) (r : Router) (hk : k≠i) : (w.setRouter i r).router k=w.router k :=
  update_of_ne hk _ _

theorem setDestination_self (w : Work) (i : ℕ) (d : Destination) : (w.setDestination i d).destination i=d :=
  update_self _ _ _

theorem setDestination_of_ne {w : Work} {d : Destination} (hk : k≠i) :
    (w.setDestination i d).destination k=w.destination k := update_of_ne hk _ _

theorem setPrefix_self (w : Work) (i : ℕ) (p : Prefix) : (w.setPrefix i p).prefixAt i=p := update_self _ _ _

theorem setPrefix_of_ne {w : Work} {p : Prefix} (hk : k≠i) : (w.setPrefix i p).prefixAt k=w.prefixAt k :=
  update_of_ne hk _ _

end Rows

/-- Rows with addresses of their own keep them when one is written under an address no other has, or freed. -/
theorem distinct_update {α : Type} {f : ℕ → α} {used : α → Bool} {addr : α → Octets} {n : ℕ} {x : α}
    (h : ∀ j<n,∀ k<n,used (f j) → used (f k) → addrEq (addr (f j)) (addr (f k)) → j=k)
    (hnew : used x → ∀ j<n,j≠i → used (f j) → addrEq (addr (f j)) (addr x)=false) :
    ∀ j<n,∀ k<n,used (update f i x j) → used (update f i x k) →
      addrEq (addr (update f i x j)) (addr (update f i x k)) → j=k := by
  intro j hj k hk huj huk heq
  by_cases hji : j=i
  · by_cases hki : k=i
    · rw [hji,hki]
    · rw [hji,update_self] at huj heq
      rw [update_of_ne hki] at huk heq
      cases (hnew huj k hk hki huk).symm.trans (addrEq_symm heq)
  rw [update_of_ne hji] at huj heq
  by_cases hki : k=i
  · rw [hki,update_self] at huk heq
    cases (hnew huk j hj hji huj).symm.trans heq
  · rw [update_of_ne hki] at huk heq
    exact h j hj k hk huj huk heq

theorem Tabled.addNeighbor (h : Tabled cfg w) (hi : i < cfg.nd6Neighbors) (hf : (w.neighbor i).used=false)
    (hnew : ∀ j < cfg.nd6Neighbors,(w.neighbor j).used → addrEq (w.neighbor j).addr n.addr=false) (hus : n.used) :
    Tabled cfg {w.setNeighbor i n with ctx := {w.ctx with neighbors := w.ctx.neighbors+1}} := by
  have hs := setNeighbor_self w i n
  have ho : ∀ k,k≠i → _ := fun k hk => setNeighbor_of_ne w n hk
  refine ⟨distinct_update h.distinct fun _ j hj _ => hnew j hj,fun r hr hu => ?_,h.listed,?_,h.destinations,h.prefixes,
    h.routers⟩
  · refine (h.names r hr hu).congr fun hn => ?_
    have hne : (w.router r).neighbor≠i := by
      intro he
      rw [he,hf] at hn
      cases hn
    rw [ho _ hne]
    exact ⟨hn,rfl⟩
  · show w.ctx.neighbors+1=(List.range cfg.nd6Neighbors).countP fun k => ((w.setNeighbor i n).neighbor k).used
    rw [countP_range_add hi hf (by rw [hs,hus]) fun k hk => by rw [ho k hk],h.neighbors]

theorem Tabled.dropNeighbor (h : Tabled cfg w) (hi : i < cfg.nd6Neighbors)
    (hus : (w.neighbor i).used) (hun : Unnamed cfg w i) (hn : n.used=false) :
    Tabled cfg {w.setNeighbor i n with ctx := {w.ctx with neighbors := w.ctx.neighbors-1}} := by
  have hs := setNeighbor_self w i n
  have ho : ∀ k,k≠i → _ := fun k hk => setNeighbor_of_ne w n hk
  refine ⟨distinct_update h.distinct fun hu => ?_,fun r hr hu => ?_,h.listed,?_,h.destinations,h.prefixes,h.routers⟩
  · cases hn.symm.trans hu
  · refine (h.names r hr hu).congr fun hu' => ?_
    rw [ho _ (hun.1 r hr hu)]
    exact ⟨hu',rfl⟩
  · show w.ctx.neighbors-1=(List.range cfg.nd6Neighbors).countP fun k => ((w.setNeighbor i n).neighbor k).used
    rw [countP_range_sub hi hus (by rw [hs,hn]) fun k hk => by rw [ho k hk],h.neighbors]

variable {count : ℕ}

/-- A router is listed under an address that is not, rewritten under its own, or given back. -/
theorem Tabled.putRouter (h : Tabled cfg w)
    (hnew : r.used → ∀ j < cfg.nd6Routers,j≠i → (w.router j).used → addrEq (w.router j).addr r.addr=false)
    (hn : r.used → Names cfg w r) (hc : count=(List.range cfg.nd6Routers).countP fun k => ((w.setRouter i r).router k).used) :
    Tabled cfg {w.setRouter i r with ctx := {w.ctx with routers := count}} := by
  have hs := setRouter_self w i r
  have ho : ∀ k,k≠i → _ := fun k hk => setRouter_of_ne w r hk
  refine ⟨h.distinct,fun j hj hu => ?_,distinct_update h.listed hnew,h.neighbors,h.destinations,h.prefixes,hc⟩
  change ((w.setRouter i r).router j).used=true at hu
  by_cases hji : j=i
  · rw [hji,hs] at hu ⊢
    exact hn hu
  · rw [ho j hji] at hu ⊢
    exact h.names j hj hu

theorem Tabled.putDestination {d : Destination} (h : Tabled cfg w)
    (hc : count=(List.range cfg.nd6Destinations).countP fun k => ((w.setDestination i d).destination k).used) :
    Tabled cfg {w.setDestination i d with ctx := {w.ctx with destinations := count}} :=
  ⟨h.distinct,h.names,h.listed,h.neighbors,hc,h.prefixes,h.routers⟩

theorem Tabled.putPrefix {p : Prefix} (h : Tabled cfg w)
    (hc : count=(List.range cfg.nd6Prefixes).countP fun k => ((w.setPrefix i p).prefixAt k).used) :
    Tabled cfg {w.setPrefix i p with ctx := {w.ctx with prefixes := count}} :=
  ⟨h.distinct,h.names,h.listed,h.neighbors,h.destinations,hc,h.routers⟩

theorem Move.tabled {k : Kind} (hm : Move cfg k w w') (h : Tabled cfg w) : Tabled cfg w' := by
  cases hm with
  | quiet hq =>
    exact h.congr hq.used hq.addr hq.router (fun i => by rw [hq.destination]) hq.prefixes
      ⟨hq.counts.1,hq.counts.2.1,hq.counts.2.2.1,hq.counts.2.2.2.1⟩
  | addNeighbor hi hf hnew hus hh => exact h.addNeighbor hi hf hnew hus
  | dropNeighbor hi hus hqueue hun => exact h.dropNeighbor hi hus hun rfl
  | @demote _ i n hus ha hh =>
    refine h.congr (fun k => ?_) (fun k => ?_) rfl (fun _ => rfl) (fun _ => rfl) ⟨rfl,rfl,rfl,rfl⟩
    · by_cases hk : k=i
      · rw [hk,setNeighbor_self,hus]
      · rw [setNeighbor_of_ne _ _ hk]
    · by_cases hk : k=i
      · rw [hk,setNeighbor_self,ha]
      · rw [setNeighbor_of_ne _ _ hk]
  | @addDestination _ i d hi hf hus =>
    refine h.putDestination ?_
    rw [countP_range_add hi hf (by rw [setDestination_self,hus]) fun k hk => by rw [setDestination_of_ne hk],
      h.destinations]
  | @setDestination _ i d hus =>
    refine h.congr (fun _ => rfl) (fun _ => rfl) rfl (fun k => ?_) (fun _ => rfl) ⟨rfl,rfl,rfl,rfl⟩
    by_cases hk : k=i
    · rw [hk,setDestination_self,hus]
    · rw [setDestination_of_ne hk]
  | @dropDestination _ i hi hus =>
    refine h.putDestination ?_
    rw [countP_range_sub hi hus (by rw [setDestination_self]) fun k hk => by rw [setDestination_of_ne hk],h.destinations]
  | @addPrefix _ i p hi hf hus =>
    refine h.putPrefix ?_
    rw [countP_range_add hi hf (by rw [setPrefix_self,hus]) fun k hk => by rw [setPrefix_of_ne hk],h.prefixes]
  | @dropPrefix _ i hi hus =>
    refine h.putPrefix ?_
    rw [countP_range_sub hi hus (by rw [setPrefix_self]; rfl) fun k hk => by rw [setPrefix_of_ne hk],h.prefixes]
  | @addRouter _ i r hi hf hnew hus hn =>
    refine h.putRouter (fun _ j hj _ hu => hnew j hj hu) (fun _ => hn) ?_
    rw [countP_range_add hi hf (by rw [setRouter_self,hus]) fun k hk => by rw [setRouter_of_ne _ _ hk],h.routers]
  | @setRouter _ i r hi hus ha hn =>
    have hs : ∀ k,((w.setRouter i r).router k).used=(w.router k).used := fun k => by
      by_cases hk : k=i
      · rw [hk,setRouter_self,hus]
      · rw [setRouter_of_ne _ _ hk]
    have hc : w.ctx.routers=(List.range cfg.nd6Routers).countP fun k => ((w.setRouter i r).router k).used := by
      simp only [hs]
      exact h.routers
    refine h.putRouter (fun hu j hj hji huj => ?_) (fun _ => hn) hc
    rw [Bool.eq_false_iff]
    intro heq
    rw [ha] at heq
    exact hji (h.listed j hj i hi huj (hus ▸ hu) heq)
  | @dropRouter _ i hi hus =>
    refine h.putRouter (nofun) (nofun) ?_
    rw [countP_range_sub hi hus (by rw [setRouter_self]) fun k hk => by rw [setRouter_of_ne _ _ hk],h.routers]

end Tables

section Calls

open IndexChain Relation Bool List Option

variable {cfg : Config} {ok : Kind → Bool} {w w' : Work}

/-- Destinations are freed at most, and nothing else is touched. -/
structure Fewer (w w' : Work) : Prop where
  neighbor : w'.neighbor=w.neighbor
  router : w'.router=w.router
  io : w'.io=w.io
  nowMs : w'.ctx.nowMs=w.ctx.nowMs
  destination : ∀ d,(w'.destination d).used → w'.destination d=w.destination d

theorem Fewer.refl (w : Work) : Fewer w w := ⟨rfl,rfl,rfl,rfl,fun _ _ => rfl⟩

theorem Fewer.trans {w'' : Work} (h : Fewer w w') (h' : Fewer w' w'') : Fewer w w'' := by
  refine ⟨h'.neighbor.trans h.neighbor,h'.router.trans h.router,h'.io.trans h.io,h'.nowMs.trans h.nowMs,fun d hd => ?_⟩
  have heq := h'.destination d hd
  rw [heq] at hd
  exact heq.trans (h.destination d hd)

theorem dropDestination_fewer {w : Work} {i : ℕ} : Fewer w (dropDestination w i) := by
  refine ⟨rfl,rfl,rfl,rfl,fun d hd => ?_⟩
  have hne : d≠i := by
    rintro rfl
    simp [dropDestination,Work.setDestination] at hd
  exact setDestination_of_ne hne

theorem dropDestinationVia_spec (w : Work) (ni : ℕ) {i : ℕ} (hi : i < cfg.nd6Destinations) (hok : ok .dropDestination) :
    Moves cfg ok w (dropDestinationVia ni w i) ∧ Fewer w (dropDestinationVia ni w i) ∧
      (((dropDestinationVia ni w i).destination i).used → ((dropDestinationVia ni w i).destination i).neighbor≠ni) := by
  unfold dropDestinationVia
  split
  next hc =>
    rw [and_eq_true] at hc
    refine ⟨(Move.dropDestination hi hc.1).moves hok,dropDestination_fewer,fun hu => ?_⟩
    simp [dropDestination,Work.setDestination] at hu
  next hc =>
    refine ⟨Moves.refl w,Fewer.refl w,fun hu he => hc ?_⟩
    rw [hu,he]
    simp

theorem dropDestinationsVia_spec (w : Work) (ni : ℕ) (hok : ok .dropDestination) :
    Moves cfg ok w (dropDestinationsVia cfg w ni) ∧ Fewer w (dropDestinationsVia cfg w ni) ∧
      ∀ d < cfg.nd6Destinations,((dropDestinationsVia cfg w ni).destination d).used →
        ((dropDestinationsVia cfg w ni).destination d).neighbor≠ni := by
  have hfl : ∀ (l : List ℕ) (w : Work),(∀ d∈l,d < cfg.nd6Destinations) →
      Moves cfg ok w (l.foldl (dropDestinationVia ni) w) ∧ Fewer w (l.foldl (dropDestinationVia ni) w) ∧
        ∀ d∈l,((l.foldl (dropDestinationVia ni) w).destination d).used →
          ((l.foldl (dropDestinationVia ni) w).destination d).neighbor≠ni := by
    intro l
    induction l with
    | nil => exact fun w _ => ⟨Moves.refl w,Fewer.refl w,nofun⟩
    | cons k l ih =>
      intro w hl
      obtain ⟨hmv,hf,hg⟩ := @dropDestinationVia_spec cfg ok w ni k (hl k mem_cons_self) hok
      obtain ⟨hm,hfw,ha⟩ := ih (dropDestinationVia ni w k) fun d hd => hl d (mem_cons_of_mem k hd)
      refine ⟨hmv.trans hm,hf.trans hfw,fun d hd hu => ?_⟩
      rcases mem_cons.1 hd with rfl|hd
      · have heq := hfw.destination d hu
        intro hn
        exact hg ((congrArg Destination.used heq).symm.trans hu) ((congrArg Destination.neighbor heq).symm.trans hn)
      · exact ha d hd hu
  obtain ⟨hm,hf,hg⟩ := hfl (range cfg.nd6Destinations) w fun d hd => mem_range.1 hd
  exact ⟨hm,hf,fun d hd => hg d (mem_range.2 hd)⟩

theorem dropRouter_spec {ri : ℕ} (hi : ri < cfg.nd6Routers) (hu : (w.router ri).used)
    (hok : ok .dropDestination) (hok' : ok .dropRouter) :
    let u := dropRouter cfg w ri
    Moves cfg ok w u ∧ u.neighbor=w.neighbor ∧ u.router=(w.setRouter ri ⟨0,.zero,none8,false⟩).router ∧ u.io=w.io ∧
      u.ctx.nowMs=w.ctx.nowMs ∧ (∀ d,(u.destination d).used → u.destination d=w.destination d) ∧
      ((w.router ri).neighbor < cfg.nd6Neighbors → ∀ d < cfg.nd6Destinations,(u.destination d).used →
          (u.destination d).neighbor≠(w.router ri).neighbor) := by
  dsimp only
  have hm := (Move.dropRouter hi hu).moves hok'
  unfold dropRouter
  extract_lets ni row ctx u
  split
  next hlt =>
    obtain ⟨hmv,hf,hg⟩ := @dropDestinationsVia_spec cfg ok u ni hok
    exact ⟨hm.trans hmv,hf.neighbor,hf.router,hf.io,hf.nowMs,hf.destination,fun _ => hg⟩
  next hge => exact ⟨hm,rfl,rfl,rfl,rfl,fun _ _ => rfl,fun hlt => absurd hlt hge⟩

theorem Tabled.named_once (h : Tabled cfg w) {r s : ℕ} (hr : r < cfg.nd6Routers) (hs : s < cfg.nd6Routers)
    (hur : (w.router r).used) (hus : (w.router s).used) (heq : (w.router r).neighbor=(w.router s).neighbor)
    (hlt : (w.router r).neighbor < cfg.nd6Neighbors) : r=s := by
  have hn : (w.router r).neighbor≠none8 := (hlt.trans cfg.nd6Neighbors_lt).ne
  obtain ⟨-,-,har⟩ := (h.names r hr hur).resolve_left hn
  obtain ⟨-,-,has⟩ := (h.names s hs hus).resolve_left (heq ▸ hn)
  rw [←heq] at has
  exact h.listed r hr s hs hur hus (addrEq_trans (addrEq_symm har) has)

theorem dropRouterOf_spec (h : Tabled cfg w) {ni : ℕ} (hi : ni < cfg.nd6Neighbors)
    (hok : ok .dropDestination) (hok' : ok .dropRouter) :
    Moves cfg ok w (dropRouterOf cfg w ni) ∧ (dropRouterOf cfg w ni).neighbor=w.neighbor ∧
      (dropRouterOf cfg w ni).io=w.io ∧ (dropRouterOf cfg w ni).ctx.nowMs=w.ctx.nowMs ∧
      Unnamed cfg (dropRouterOf cfg w ni) ni := by
  unfold dropRouterOf
  split
  next ri hri =>
    obtain ⟨hmt,hlt,-⟩ := firstIndex_some.1 hri
    simp only [and_eq_true,beq_iff_eq] at hmt
    obtain ⟨hu,hnm⟩ := hmt
    obtain ⟨hm,hn,hrt,hio,hnw,-,hg⟩ := dropRouter_spec hlt hu hok hok'
    rw [hnm] at hg
    refine ⟨hm,hn,hio,hnw,fun r hr hur => ?_,hg hi⟩
    rw [hrt] at hur ⊢
    have hne : r≠ri := by
      rintro rfl
      rw [setRouter_self] at hur
      cases hur
    rw [setRouter_of_ne _ _ hne] at hur ⊢
    intro hrn
    exact hne (h.named_once hr hlt hur hu (hrn.trans hnm.symm) (hrn ▸ hi))
  next hnn =>
    obtain ⟨hm,hf,hg⟩ := @dropDestinationsVia_spec cfg ok w ni hok
    refine ⟨hm,hf.neighbor,hf.io,hf.nowMs,fun r hr hur hrn => ?_,hg⟩
    rw [hf.router] at hur hrn
    have hfr := firstIndex_none.1 hnn r hr
    simp [hur,hrn] at hfr

/-- A neighbor with no frames queued is given back, and every row that named it before. -/
theorem freeNeighbor_spec (h : Tabled cfg w) {ni : ℕ} (hi : ni < cfg.nd6Neighbors) (hu : (w.neighbor ni).used)
    (hq : cfg.nd6Pending≤(w.neighbor ni).pendingHead) :
    Moves cfg Kind.cuts w (freeNeighbor cfg w ni) ∧ (freeNeighbor cfg w ni).io=w.io ∧
      (freeNeighbor cfg w ni).ctx.nowMs=w.ctx.nowMs := by
  obtain ⟨hm,hn,hio,hnw,hun⟩ := @dropRouterOf_spec cfg Kind.cuts w h ni hi rfl rfl
  refine ⟨hm.trans ((Move.dropNeighbor hi ?_ ?_ hun).moves rfl),hio,hnw⟩
  · rw [hn,hu]
  · rw [hn]
    exact hq

theorem latch_quiet (w : Work) (now : BitVec 32) : Quiet w (w.latch now) :=
  quiet_of_eq rfl rfl rfl rfl rfl ⟨rfl,rfl,rfl,rfl,rfl⟩

theorem report_quiet (w : Work) (i : ℕ) (s : Status) : Quiet w ((reportNeighbor w i).status s) :=
  quiet_of_eq rfl rfl rfl rfl rfl ⟨rfl,rfl,rfl,rfl,rfl⟩

theorem quiet_io {w : Work} {io : Io} : Quiet w {w with io := io} := quiet_of_eq rfl rfl rfl rfl rfl ⟨rfl,rfl,rfl,rfl,rfl⟩

theorem neighborFind_quiet {w : Work} {a : NeighborArgs} : Quiet w (neighborFind cfg w a) := by
  unfold neighborFind
  extract_lets io u v
  split
  · exact quiet_io
  split
  · exact quiet_io
  split
  · exact (quiet_io).trans (latch_quiet u _)
  · exact (quiet_io).trans ((latch_quiet u _).trans (report_quiet v _ _))

theorem revised_same (n : Neighbor) (c : Ctx) (a : NeighborArgs) :
    (n.revised cfg c a).used=n.used ∧ (n.revised cfg c a).addr=n.addr ∧ (n.revised cfg c a).pendingHead=n.pendingHead := by
  unfold Neighbor.revised
  split
  · split <;> exact ⟨rfl,rfl,rfl⟩
  split
  · split <;> exact ⟨rfl,rfl,rfl⟩
  extract_lets m m'
  have hm : m.used=n.used ∧ m.addr=n.addr ∧ m.pendingHead=n.pendingHead := by
    simp only [m]
    split
    · exact ⟨rfl,rfl,rfl⟩
    split <;> exact ⟨rfl,rfl,rfl⟩
  have hm' : m'.used=m.used ∧ m'.addr=m.addr ∧ m'.pendingHead=m.pendingHead := by
    simp only [m']
    split
    · exact ⟨rfl,rfl,rfl⟩
    split <;> exact ⟨rfl,rfl,rfl⟩
  exact ⟨hm'.1.trans hm.1,hm'.2.1.trans hm.2.1,hm'.2.2.trans hm.2.2⟩

theorem neighborConfirm_quiet (w : Work) (index : ℕ) (now : BitVec 32) : Quiet w (neighborConfirm cfg w index now) := by
  unfold neighborConfirm
  extract_lets u v v'
  have hu : Quiet w u := quiet_io
  split
  · exact hu
  refine hu.trans ((latch_quiet u now).trans (Quiet.trans ?_ (report_quiet v' index .ok)))
  simp only [v']
  split
  · exact quiet_setNeighbor rfl rfl rfl fun h => h
  · exact Quiet.refl _

theorem neighborUsed_quiet (w : Work) (index : ℕ) (now : BitVec 32) : Quiet w (neighborUsed cfg w index now) := by
  unfold neighborUsed
  extract_lets u v v'
  have hu : Quiet w u := quiet_io
  split
  · exact hu
  refine hu.trans ((latch_quiet u now).trans (Quiet.trans ?_ (report_quiet v' index .ok)))
  simp only [v']
  split
  · exact quiet_setNeighbor rfl rfl rfl fun h => h
  · exact Quiet.refl _

theorem neighborLookup_none {addr : Octets} (h : neighborLookup cfg w addr=none) :
    ∀ j < cfg.nd6Neighbors,(w.neighbor j).used → addrEq (w.neighbor j).addr addr=false := by
  intro j hj hu
  have hj' := firstIndex_none.1 h j hj
  rwa [hu,Bool.true_and] at hj'

theorem neighborLookup_some {addr : Octets} {i : ℕ} (h : neighborLookup cfg w addr=some i) :
    i < cfg.nd6Neighbors ∧ (w.neighbor i).used ∧ addrEq (w.neighbor i).addr addr := by
  obtain ⟨hm,hlt,-⟩ := firstIndex_some.1 h
  rw [and_eq_true] at hm
  exact ⟨hlt,hm⟩

theorem createNeighbor_spec {addr : Octets} {lladdr : Option Octets} {st : State} {flag : Bool} {v : Work} {i : ℕ}
    (hn : ∀ j < cfg.nd6Neighbors,(w.neighbor j).used → addrEq (w.neighbor j).addr addr=false)
    (h : createNeighbor cfg w addr lladdr st flag=some (v,i)) :
    Move cfg .addNeighbor w v ∧ i < cfg.nd6Neighbors ∧ (v.neighbor i).used ∧ addrEq (v.neighbor i).addr addr ∧
      v.router=w.router ∧ v.io=w.io ∧ v.ctx.nowMs=w.ctx.nowMs ∧ ∀ k,k≠i → v.neighbor k=w.neighbor k := by
  obtain ⟨k,hk,heq⟩ := map_eq_some_iff.1 h
  obtain ⟨hf,hlt,-⟩ := firstIndex_some.1 hk
  cases heq
  refine ⟨Move.addNeighbor hlt (by simpa using hf) (fun j hj hu => ?_) rfl rfl,hlt,?_,?_,rfl,rfl,rfl,fun k hk => ?_⟩
  · show addrEq (w.neighbor j).addr (addr.padded 16)=false
    rw [addrEq_padded]
    exact hn j hj hu
  · show ((w.setNeighbor i _).neighbor i).used
    rw [setNeighbor_self]
    rfl
  · show addrEq ((w.setNeighbor i _).neighbor i).addr addr
    rw [setNeighbor_self]
    exact Octets.padded_bytesEq addr 16
  · exact setNeighbor_of_ne w _ hk

def Kind.any (_ : Kind) : Bool := true

theorem setNeighbor_moves (h : Tabled cfg w) {addr : Octets} {a : NeighborArgs} :
    Moves cfg Kind.any w (setNeighbor cfg w addr a) := by
  unfold setNeighbor
  split
  next hn =>
    split
    · exact (quiet_io).moves rfl
    next v i hv =>
      have hm : Moves cfg Kind.any w v := (createNeighbor_spec (neighborLookup_none hn) hv).1.moves rfl
      exact hm.trans ((report_quiet v i .ok).moves rfl)
  next i hi =>
    obtain ⟨hlt,-,-⟩ := neighborLookup_some hi
    obtain ⟨hu,ha,hh⟩ := @revised_same cfg (w.neighbor i) w.ctx a
    extract_lets v v'
    have hd : Move cfg .demote w v := .demote hu ha hh
    have hv : Moves cfg Kind.any w v := hd.moves rfl
    have hv' : Moves cfg Kind.any v v' := by
      simp only [v']
      split
      · exact (dropRouterOf_spec (hd.tabled h) hlt rfl rfl).1
      · exact Moves.refl v
    exact (hv.trans hv').trans ((report_quiet v' i .ok).moves rfl)

theorem neighborSet_moves (h : Tabled cfg w) (a : NeighborArgs) : Moves cfg Kind.any w (neighborSet cfg w a) := by
  unfold neighborSet
  extract_lets io u
  have hu : Quiet w u := quiet_io
  split
  · exact hu.moves rfl
  next addr _ =>
    split
    · exact hu.moves rfl
    have hl : Moves cfg Kind.any w (u.latch a.nowMs) := (hu.trans (latch_quiet u a.nowMs)).moves rfl
    have ht : Tabled cfg (u.latch a.nowMs) := (Move.quiet (hu.trans (latch_quiet u a.nowMs))).tabled h
    exact hl.trans (setNeighbor_moves ht)

theorem reviseDestination_moves {w : Work} {i : ℕ} {a : DestArgs} : Moves cfg Kind.mild w (reviseDestination cfg w i a) := by
  unfold reviseDestination
  extract_lets d u
  have hm : Move cfg .setDestination w u := .setDestination rfl
  exact (hm.moves rfl).trans ((quiet_io).moves rfl)

theorem destFind_quiet {w : Work} {a : DestArgs} : Quiet w (destFind cfg w a) := by
  unfold destFind
  extract_lets io u v
  have hu : Quiet w u := quiet_io
  split
  · exact hu
  split
  · exact hu
  split
  · exact hu.trans (latch_quiet u _)
  · exact hu.trans ((latch_quiet u _).trans (quiet_io))

theorem destSet_moves {w : Work} {a : DestArgs} : Moves cfg Kind.mild w (destSet cfg w a) := by
  unfold destSet
  extract_lets io u v
  have hu : Quiet w u := quiet_io
  have hv : Moves cfg Kind.mild w v := (hu.trans (latch_quiet u a.nowMs)).moves rfl
  split
  · exact hu.moves rfl
  next dst _ =>
    split
    · exact hu.moves rfl
    split
    next i _ => exact hv.trans (reviseDestination_moves)
    next =>
      split
      · exact hv
      split
      · exact hv.trans ((quiet_io).moves rfl)
      next x i hx =>
        obtain ⟨k,hk,heq⟩ := map_eq_some_iff.1 hx
        obtain ⟨hf,hlt,-⟩ := firstIndex_some.1 hk
        cases heq
        have hm := Move.addDestination (w := v) (d := {Destination.zero with dst := dst.padded 16,neighbor := none8,used := true})
          hlt (by simpa using hf) rfl
        exact (hv.trans (hm.moves rfl)).trans (reviseDestination_moves)

theorem revisePrefix_quiet {w : Work} {i : ℕ} {a : PrefixArgs} : Quiet w (revisePrefix w i a) := by
  refine ⟨fun _ => rfl,fun _ => rfl,fun _ => rfl,fun _ h => h,rfl,rfl,fun k => ?_,rfl,rfl,rfl,rfl,rfl,rfl⟩
  show ((w.setPrefix i _).prefixAt k).used=_
  by_cases hk : k=i
  · rw [hk,setPrefix_self]
  · rw [setPrefix_of_ne hk]

theorem prefixSet_moves {w : Work} {a : PrefixArgs} : Moves cfg Kind.mild w (prefixSet cfg w a) := by
  unfold prefixSet
  extract_lets io u v
  have hu : Quiet w u := quiet_io
  have hv : Moves cfg Kind.mild w v := (hu.trans (latch_quiet u a.nowMs)).moves rfl
  split
  · exact hu.moves rfl
  next addr _ =>
    split
    · exact hu.moves rfl
    split
    · exact hv.trans ((quiet_io).moves rfl)
    split
    next i _ => exact hv.trans ((revisePrefix_quiet).moves rfl)
    next =>
      split
      · exact hv.trans ((quiet_io).moves rfl)
      split
      · exact hv.trans ((quiet_io).moves rfl)
      next x i hx =>
        obtain ⟨k,hk,heq⟩ := map_eq_some_iff.1 hx
        obtain ⟨hf,hlt,-⟩ := firstIndex_some.1 hk
        cases heq
        have hm := Move.addPrefix (w := v) (p := {Prefix.zero with addr := addr.padded 16,prefixLen := a.prefixLen,used := true})
          hlt (by simpa using hf) rfl
        exact (hv.trans (hm.moves rfl)).trans ((revisePrefix_quiet).moves rfl)

theorem prefixOnLink_quiet {w : Work} {a : PrefixArgs} : Quiet w (prefixOnLink cfg w a) := by
  unfold prefixOnLink
  extract_lets io u v own
  have hu : Quiet w u := quiet_io
  split
  · exact hu
  split
  · exact hu
  · exact hu.trans ((latch_quiet u _).trans (quiet_io))

/-- The neighbor of an address, when one is said to be. -/
def Holds (cfg : Config) (w : Work) (addr : Octets) (ni : Option ℕ) : Prop :=
  ∀ i∈ni,i < cfg.nd6Neighbors ∧ (w.neighbor i).used ∧ addrEq (w.neighbor i).addr addr=true

theorem Holds.names {addr : Octets} {ni : Option ℕ} {r : Router} (h : Holds cfg w addr ni) (hn : r.neighbor=ni.getD none8)
    (ha : addrEq addr r.addr) : Names cfg w r := by
  cases ni with
  | none => exact .inl hn
  | some i =>
    obtain ⟨hlt,hu,heq⟩ := h i rfl
    have hn' : r.neighbor=i := hn
    refine .inr ?_
    rw [hn']
    exact ⟨hlt,hu,addrEq_trans heq ha⟩

theorem recordNeighbor_spec {addr : Octets} {ni ni' : Option ℕ} {lladdr : Option Octets} {v : Work} (hh : Holds cfg w addr ni)
    (hnw : ni=none → ∀ j < cfg.nd6Neighbors,(w.neighbor j).used → addrEq (w.neighbor j).addr addr=false)
    (h : recordNeighbor cfg w addr ni lladdr=some (v,ni')) :
    Moves cfg Kind.calm w v ∧ v.router=w.router ∧ Holds cfg v addr ni' ∧ (∀ j < cfg.nd6Neighbors,(v.neighbor j).used →
        ni'=some j ∨ ((w.neighbor j).used ∧ (v.neighbor j).addr=(w.neighbor j).addr)) ∧ (ni'=none → v=w ∧ ni=none) := by
  have hs : ∀ j < cfg.nd6Neighbors,(w.neighbor j).used →
      ni=some j ∨ ((w.neighbor j).used ∧ (w.neighbor j).addr=(w.neighbor j).addr) := fun j _ hu => .inr ⟨hu,rfl⟩
  cases lladdr with
  | none =>
    cases h
    exact ⟨Moves.refl w,rfl,hh,hs,fun hn => ⟨rfl,hn⟩⟩
  | some l =>
    cases ni with
    | none =>
      obtain ⟨⟨x,i⟩,hx,heq⟩ := map_eq_some_iff.1 h
      cases heq
      obtain ⟨hm,hlt,hus,ha,hr,-,-,ho⟩ := createNeighbor_spec (hnw rfl) hx
      refine ⟨hm.moves rfl,hr,?_,fun j _ hu => ?_,nofun⟩
      · rintro k ⟨⟩
        exact ⟨hlt,hus,ha⟩
      · by_cases hji : j=i
        · exact .inl (by rw [hji])
        · rw [ho j hji] at hu ⊢
          exact .inr ⟨hu,rfl⟩
    | some i =>
      obtain ⟨hlt,hus,ha⟩ := hh i rfl
      dsimp only [recordNeighbor] at h
      split at h
      · cases h
        exact ⟨Moves.refl w,rfl,hh,hs,nofun⟩
      cases h
      have hq : Quiet w (w.setNeighbor i (arm cfg w.ctx {w.neighbor i with lladdr := l.padded 6,state := .stale})) :=
        quiet_setNeighbor rfl rfl rfl fun h => h
      refine ⟨hq.moves rfl,rfl,?_,fun j _ hu => .inr ⟨(hq.used j).symm.trans hu,hq.addr j⟩,nofun⟩
      rintro k ⟨⟩
      exact ⟨hlt,(hq.used i).trans hus,by rw [hq.addr]; exact ha⟩

theorem routerDone_quiet {w : Work} {ri ni : Option ℕ} : Quiet w (routerDone w ri ni) := by
  cases ni with
  | none => exact quiet_io
  | some i =>
    have hq : Quiet w (w.setNeighbor i {w.neighbor i with isRouter := true}) := quiet_setNeighbor rfl rfl rfl fun _ => rfl
    exact hq.trans (quiet_io)

theorem startRouter_takeRouter (w : Work) (i : ℕ) (addr : Octets) (ni : Option ℕ) (lifetimeS : BitVec 16) :
    startRouter (takeRouter w i addr) i ni lifetimeS=
      {w.setRouter i ⟨w.ctx.nowMs+lifetimeMs (lifetimeS.setWidth 32),addr.padded 16,ni.getD none8,true⟩ with
        ctx := {w.ctx with routers := w.ctx.routers+1}} := by
  have hr : (takeRouter w i addr).router i={w.router i with used := true,addr := addr.padded 16} := setRouter_self w i _
  unfold startRouter
  rw [hr]
  simp only [takeRouter,Work.setRouter,Function.update_idem]

/-- Listing a router: its row is rewritten, or a free one taken for an address that is not listed. -/
theorem listRouter_spec {addr : Octets} {ri : Option ℕ} {ni : Option ℕ} {lifetimeS : BitVec 16} {v : Work} {i : ℕ}
    (hh : Holds cfg w addr ni) (hri : routerLookup cfg w addr=ri) (h : routerRow cfg w addr ri=some (v,i)) :
    let u := startRouter v i ni lifetimeS
    Moves cfg Kind.calm w u ∧ u.neighbor=w.neighbor ∧ (∀ r,r≠i → u.router r=w.router r) ∧
      addrEq addr (u.router i).addr ∧ (u.router i).neighbor=ni.getD none8 := by
  have hs : (startRouter v i ni lifetimeS).router i={v.router i with
      neighbor := ni.getD none8
      invalidateMs := v.ctx.nowMs+lifetimeMs (lifetimeS.setWidth 32)} := setRouter_self v i _
  have ho : ∀ r,r≠i → (startRouter v i ni lifetimeS).router r=v.router r := fun r hr => setRouter_of_ne v _ hr
  cases ri with
  | some k =>
    cases h
    obtain ⟨hm,hlt,-⟩ := firstIndex_some.1 hri
    rw [and_eq_true] at hm
    have ha : addrEq addr ((startRouter w i ni lifetimeS).router i).addr := by
      rw [hs]
      exact addrEq_symm hm.2
    have hn : Names cfg w ((startRouter w i ni lifetimeS).router i) := hh.names (by rw [hs]) ha
    rw [hs] at hn
    have hmv : Move cfg .setRouter w (startRouter w i ni lifetimeS) := .setRouter hlt rfl rfl hn
    exact ⟨hmv.moves rfl,rfl,ho,ha,by rw [hs]⟩
  | none =>
    obtain ⟨k,hk,heq⟩ := map_eq_some_iff.1 h
    obtain ⟨hf,hlt,-⟩ := firstIndex_some.1 hk
    cases heq
    have hal := startRouter_takeRouter w i addr ni lifetimeS
    have hrw : (startRouter (takeRouter w i addr) i ni lifetimeS).router i=_ := (congrArg (fun u => Work.router u i) hal).trans
      (setRouter_self w i _)
    have ha : addrEq addr (addr.padded 16) := addrEq_symm (Octets.padded_bytesEq addr 16)
    have hnw : ∀ j < cfg.nd6Routers,(w.router j).used → addrEq (w.router j).addr (addr.padded 16)=false := by
      intro j hj hu
      have hj' := firstIndex_none.1 hri j hj
      rwa [hu,Bool.true_and,←addrEq_padded] at hj'
    refine ⟨?_,rfl,fun r hr => (ho r hr).trans (setRouter_of_ne w _ hr),by rw [hrw]; exact ha,by rw [hrw]⟩
    rw [hal]
    exact (Move.addRouter hlt (by simpa using hf) hnw rfl (hh.names rfl ha)).moves rfl

theorem neighborLookup_holds {w : Work} {addr : Octets} : Holds cfg w addr (neighborLookup cfg w addr) :=
  fun _ hi => neighborLookup_some hi

/-- What an advertisement of a lifetime does: the neighbor is recorded, and the router listed if there is room. -/
theorem advertised_moves {w : Work} {addr : Octets} {a : RouterArgs} : Moves cfg Kind.calm w (advertised cfg w addr a) := by
  unfold advertised
  extract_lets ni ri v
  have hh : Holds cfg w addr ni := neighborLookup_holds
  split
  · have hv : Moves cfg Kind.calm w v ∧ v.neighbor=w.neighbor := by
      cases hri : ri with
      | none =>
        simp only [v,hri]
        exact ⟨Moves.refl w,trivial⟩
      | some k =>
        obtain ⟨hm,hlt,-⟩ := firstIndex_some.1 hri
        rw [and_eq_true] at hm
        have hd := @dropRouter_spec cfg Kind.calm w k hlt hm.1 rfl rfl
        simp only [v,hri]
        exact ⟨hd.1,hd.2.1⟩
    split
    · exact hv.1.trans ((quiet_io).moves rfl)
    next u ni' hu =>
      have hrc := recordNeighbor_spec (w := v) (by rw [Holds,hv.2]; exact hh)
        (fun hn => by rw [hv.2]; exact neighborLookup_none hn) hu
      exact (hv.1.trans hrc.1).trans ((routerDone_quiet).moves rfl)
  · split
    · exact (quiet_io).moves rfl
    next v ni' hv =>
      obtain ⟨hmv,hr,hholds',-,-⟩ := recordNeighbor_spec hh (fun hn => neighborLookup_none hn) hv
      split
      · exact hmv.trans ((quiet_io).moves rfl)
      next u i hu =>
        have hri : routerLookup cfg v addr=ri := by
          unfold routerLookup
          rw [hr]
          rfl
        have hl := @listRouter_spec cfg v addr ri ni' a.lifetimeS u i hholds' hri hu
        exact (hmv.trans hl.1).trans ((routerDone_quiet).moves rfl)

theorem routerSet_moves {w : Work} {a : RouterArgs} : Moves cfg Kind.calm w (routerSet cfg w a) := by
  unfold routerSet
  extract_lets io u
  have hu : Quiet w u := quiet_io
  split
  · exact hu.moves rfl
  next addr _ =>
    split
    · exact hu.moves rfl
    · exact ((hu.trans (latch_quiet u a.nowMs)).moves rfl).trans (advertised_moves)

theorem selectRouter_quiet {w : Work} {ri : ℕ} : Quiet w (selectRouter cfg w ri) := by
  dsimp only [selectRouter]
  split <;> exact quiet_of_eq rfl rfl rfl rfl rfl ⟨rfl,rfl,rfl,rfl,rfl⟩

theorem routerSelect_quiet {w : Work} {now : BitVec 32} : Quiet w (routerSelect cfg w now) := by
  unfold routerSelect
  extract_lets io u v
  have hu : Quiet w u := quiet_io
  have hv : Quiet w v := hu.trans (latch_quiet u now)
  split
  · exact hu
  split
  next ri _ => exact hv.trans (selectRouter_quiet)
  next =>
    split
    · exact hv
    next ri _ =>
      have hc : Quiet v {v with ctx := {v.ctx with routerCursor := if cfg.nd6Routers ≤ ri+1 then 0 else ri+1}} :=
        quiet_of_eq rfl rfl rfl rfl rfl ⟨rfl,rfl,rfl,rfl,rfl⟩
      exact hv.trans (hc.trans (selectRouter_quiet))

theorem paramsSet_quiet {w : Work} {a : ParamsArgs} : Quiet w (paramsSet cfg w a) := by
  unfold paramsSet
  extract_lets u c
  split
  · exact quiet_io
  · exact quiet_of_eq rfl rfl rfl rfl rfl ⟨rfl,rfl,rfl,rfl,rfl⟩

end Calls

end IdemIp.Nd6
