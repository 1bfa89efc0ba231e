import IdemIp.TcpPcb
import IdemIp.StepRun

/-!
# What each entry of the connection tables can do

One inversion lemma per entry: either the tables stay as they are, or they
change in the one way stated with the guards that let them. Everything proved
about runs of the unit goes through these: first that connections leave LISTEN
to the listener table as long as nobody stores it.
-/

namespace IdemIp.TcpPcb

section Cases

open IndexChain Work

variable {cfg : Config} {w : Work} {t : Tables} {i : ℕ}

/-- A row edited without touching its use, family, variables, state or queues. -/
structure Tcb.Renamed (x y : Tcb) : Prop where
  /-- Both rows hold a connection or neither does. -/
  inUse : y.inUse=x.inUse
  ipVersion : y.ipVersion=x.ipVersion
  vars : y.vars=x.vars
  state : y.state=x.state
  unsent : y.unsent=x.unsent
  unacked : y.unacked=x.unacked
  ooseq : y.ooseq=x.ooseq

/-- Tables that differ in at most one renamed connection. -/
def Renames (cfg : Config) (t u : Tables) : Prop :=
  u=t ∨ ∃ i x,i < cfg.tcpPcbs ∧ (t.tcb i).inUse=true ∧ (t.tcb i).Renamed x ∧ u=t.setTcb i x

theorem Renames.set {cfg : Config} {t : Tables} {i : ℕ} {x : Tcb} (hi : i < cfg.tcpPcbs) (hu : (t.tcb i).inUse)
    (hx : (t.tcb i).Renamed x) : Renames cfg t (t.setTcb i x) := .inr ⟨i,x,hi,hu,hx,rfl⟩

/-- `open` takes the first free row or leaves the tables. -/
theorem openTcb_cases {v : ℕ} : ((openTcb cfg w v).tab=w.tab ∧ (openTcb cfg w v).io.status≠.ok ∧
      (openTcb cfg w v).io.index=noneIndex) ∨ ∃ i < cfg.tcpPcbs,w.ready ∧ (w.tab.tcb i).inUse=false ∧ addrBytes v≠0 ∧
      openTcb cfg w v=w.took (w.tab.setTcb i (Tcb.opened cfg v)) i := by
  unfold openTcb
  split_ifs with hr hv
  · exact .inl ⟨rfl,by simp [noIndex],rfl⟩
  · exact .inl ⟨rfl,by simp [noIndex],rfl⟩
  split
  · exact .inl ⟨rfl,by simp [noIndex],rfl⟩
  rename_i i hi
  obtain ⟨hfree,hlt,-⟩ := firstIndex_some.mp hi
  exact .inr ⟨i,hlt,by simpa using hr,by simpa using hfree,hv,rfl⟩

/-- `opt` renames a connection. -/
theorem opt_renames (a : OptArgs) : Renames cfg w.tab (opt cfg w a).tab := by
  unfold opt
  dsimp only
  split_ifs with hr hu
  · exact .inl rfl
  · exact .inl rfl
  · have hlt : a.index < cfg.tcpPcbs := by simp at hr; omega
    exact Renames.set hlt (by simpa using hu) ⟨rfl,rfl,rfl,rfl,rfl,rfl,rfl⟩

/-- `close` deletes a connection that holds nothing or leaves the tables. -/
theorem close_cases (p : ℕ) : (close cfg w p).tab=w.tab ∨
    p < cfg.tcpPcbs ∧ (w.tab.tcb p).inUse ∧ (w.tab.tcb p).ooseq=noneIndex ∧
      (close cfg w p).tab=(sendQueuesFree cfg w.tab p).setTcb p .zero := by
  unfold close
  split_ifs with hr hu ho
  · exact .inl rfl
  · exact .inl rfl
  · exact .inl rfl
  · have hlt : p < cfg.tcpPcbs := by simp at hr; omega
    exact .inr ⟨hlt,by simpa using hu,not_not.mp ho,rfl⟩

/-- What lets `bind` and `connect` write a row. -/
theorem nameable_iff {t : Tcb} : nameable t ↔ t.inUse ∧ addrBytes t.ipVersion≠0 ∧ t.state=.closed := by
  simp [nameable,and_assoc]

theorem bound_renames {cfg : Config} {w : Work} {a : AddrArgs} {ip : Octets} {port : BitVec 16} (hi : a.index < cfg.tcpPcbs)
    (hu : (w.tab.tcb a.index).inUse) : Renames cfg w.tab (bound w a ip port).tab :=
  Renames.set hi hu ⟨rfl,rfl,rfl,rfl,rfl,rfl,rfl⟩

/-- `bind` renames a connection. -/
theorem bind_renames {a : AddrArgs} : Renames cfg w.tab (bind cfg w a).tab := by
  unfold bind
  cases a.ip with
  | none => exact .inl rfl
  | some ip =>
    split_ifs with hr hn hp hd
    · exact .inl rfl
    · exact .inl rfl
    · have hlt : a.index < cfg.tcpPcbs := by simp at hr; omega
      exact bound_renames hlt (nameable_iff.mp (by simpa using hn)).1
    · exact .inl rfl
    · have hlt : a.index < cfg.tcpPcbs := by simp at hr; omega
      exact bound_renames hlt (nameable_iff.mp (by simpa using hn)).1

/-- `connect` renames a connection. -/
theorem connect_renames {a : AddrArgs} : Renames cfg w.tab (connect cfg w a).tab := by
  unfold connect
  cases a.ip with
  | none => exact .inl rfl
  | some ip =>
    dsimp only
    split_ifs with hr hn hp hi ht
    · exact .inl rfl
    · exact .inl rfl
    · exact .inl rfl
    · exact .inl rfl
    · exact .inl rfl
    · have hlt : a.index < cfg.tcpPcbs := by simp at hr; omega
      exact Renames.set hlt (nameable_iff.mp (by simpa using hn)).1 ⟨rfl,rfl,rfl,rfl,rfl,rfl,rfl⟩

/-- `accept` charges a connection to a listener with room or refuses with the tables as they were. -/
theorem accept_cases {p l : ℕ} :
    ((accept cfg w p l).tab=w.tab ∧ (accept cfg w p l).ready=w.ready ∧ (accept cfg w p l).io.status≠.ok) ∨
    p < cfg.tcpPcbs ∧ (w.tab.tcb p).inUse ∧ (l≠noneIndex → synReceivedOn cfg w.tab l p<(w.tab.listener l).backlog) ∧
      accept cfg w p l=w.done (w.tab.setTcb p {w.tab.tcb p with listener := l}) := by
  unfold accept
  dsimp only
  split_ifs with hr hu hl hb
  · exact .inl ⟨rfl,rfl,by simp [status]⟩
  · exact .inl ⟨rfl,rfl,by simp [status]⟩
  · exact .inl ⟨rfl,rfl,by simp [status]⟩
  · exact .inl ⟨rfl,rfl,by simp [status]⟩
  · have hr' : w.ready ∧ p < cfg.tcpPcbs := by simpa using hr
    exact .inr ⟨hr'.2,by simpa using hu,fun hn => not_le.1 fun hle => hb ⟨hn,hle⟩,rfl⟩

/-- `accept` renames a connection. -/
theorem accept_renames (p l : ℕ) : Renames cfg w.tab (accept cfg w p l).tab := by
  rcases accept_cases with ⟨ht,-⟩|⟨hp,hu,-,he⟩
  · exact .inl ht
  · rw [he]
    exact Renames.set hp hu ⟨rfl,rfl,rfl,rfl,rfl,rfl,rfl⟩

/-- `load` leaves the tables. -/
@[simp] theorem load_tab (p : ℕ) : (load cfg w p).tab=w.tab := by
  unfold load
  dsimp only
  split_ifs <;> rfl

/-- `store` writes the image of a permitted transition or leaves the tables. -/
theorem store_cases (p : ℕ) : ((store cfg w p).tab=w.tab ∧ (store cfg w p).io.status=.err) ∨
    w.ready ∧ p < cfg.tcpPcbs ∧ (w.tab.tcb p).inUse ∧ transitionOk (w.tab.tcb p).state w.io.state ∧
      store cfg w p=w.done (w.tab.setTcb p {w.tab.tcb p with vars := w.io.vars,ctl := w.io.ctl,state := w.io.state}) := by
  unfold store
  dsimp only
  split_ifs with hr hu
  · exact .inl ⟨rfl,rfl⟩
  · exact .inl ⟨rfl,rfl⟩
  have hr' : w.ready ∧ p < cfg.tcpPcbs := by simpa using hr
  have hu' : (w.tab.tcb p).inUse ∧ transitionOk (w.tab.tcb p).state w.io.state := by
    simpa using hu
  exact .inr ⟨hr'.1,hr'.2,hu'.1,hu'.2,rfl⟩

variable (cfg) in
/-- `store` of a permitted transition writes the image. -/
theorem store_eq {w : Work} {p : ℕ} (hr : w.ready) (hp : p < cfg.tcpPcbs) (hu : (w.tab.tcb p).inUse)
    (ht : transitionOk (w.tab.tcb p).state w.io.state) :
    store cfg w p=w.done (w.tab.setTcb p {w.tab.tcb p with vars := w.io.vars,ctl := w.io.ctl,state := w.io.state}) := by
  unfold store
  rw [if_neg (by simp [hr,hp])]
  simp [hu,ht]

/-- `listen` takes a listener and names it, or leaves the tables. -/
theorem listen_cases {a : ListenArgs} : ((listen cfg w a).tab=w.tab ∧ (listen cfg w a).io.status≠.ok) ∨
      ∃ i x,(listen cfg w a).tab=w.tab.setListener i x ∧ x.localPort≠0 ∧ (listen cfg w a).io.status=.ok ∧
        (listen cfg w a).io.index=i := by
  unfold listen
  cases a.ip with
  | none => exact .inl ⟨rfl,by simp [noIndex]⟩
  | some ip =>
    dsimp only
    split_ifs with hr hp ht
    · exact .inl ⟨rfl,by simp [noIndex]⟩
    · exact .inl ⟨rfl,by simp [noIndex]⟩
    · exact .inl ⟨rfl,by simp [noIndex]⟩
    split
    · exact .inl ⟨rfl,by simp [noIndex]⟩
    · exact .inr ⟨_,_,rfl,fun hz => hp (.inr (.inl hz)),rfl,rfl⟩

/-- `unlisten` zeroes a listener or leaves the tables. -/
theorem unlisten_cases : (unlisten cfg w i).tab=w.tab ∨ (unlisten cfg w i).tab=w.tab.setListener i .zero := by
  unfold unlisten
  split_ifs
  · exact .inl rfl
  · exact .inl rfl
  · exact .inr rfl

/-- `listen` writes at most the listener table. -/
theorem listen_tab {a : ListenArgs} : (listen cfg w a).tab={w.tab with listener := (listen cfg w a).tab.listener} := by
  unfold listen
  cases a.ip with
  | none => rfl
  | some ip =>
    dsimp only
    split_ifs
    · rfl
    · rfl
    · rfl
    · split <;> rfl

/-- `unlisten` writes at most the listener table. -/
theorem unlisten_tab : (unlisten cfg w i).tab={w.tab with listener := (unlisten cfg w i).tab.listener} := by
  unfold unlisten
  split_ifs <;> rfl

/-- `find` leaves the tables. -/
@[simp] theorem find_tab (a : FindArgs) : (find cfg w a).tab=w.tab := by
  unfold find
  dsimp only
  split
  · split_ifs
    · rfl
    · rfl
    · split <;> rfl
  · rfl

/-- `find_listener` leaves the tables. -/
@[simp] theorem findListener_tab (a : FindArgs) : (findListener cfg w a).tab=w.tab := by
  unfold findListener
  dsimp only
  split
  · rfl
  split_ifs
  · rfl
  · rfl
  split
  · rfl
  · split <;> rfl

/-- `seg_load` leaves the tables. -/
@[simp] theorem segLoad_tab : (segLoad cfg w i).tab=w.tab := by
  unfold segLoad
  split_ifs <;> rfl

/-- `oos_load` leaves the tables. -/
@[simp] theorem oosLoad_tab : (oosLoad cfg w i).tab=w.tab := by
  unfold oosLoad
  split_ifs <;> rfl

/-- A fresh send segment over the operands. -/
def SegArgs.row (a : SegArgs) : Seg := ⟨a.data,a.seq,noneIndex,a.pcb,a.len,a.flags,a.opts,true⟩

/-- A fresh held segment over the operands. -/
def OosArgs.row (a : OosArgs) : Oos := ⟨a.seq,noneIndex,a.pcb,a.desc,a.offset,a.len,true⟩

/-- `seg_alloc` queues a free row or leaves the tables. -/
theorem segAlloc_cases (a : SegArgs) : ((segAlloc cfg w a).tab=w.tab ∧ (segAlloc cfg w a).io.status≠.ok) ∨
    ∃ i < cfg.tcpSegs,(w.tab.seg i).inUse=false ∧ a.pcb < cfg.tcpPcbs ∧ (w.tab.tcb a.pcb).inUse ∧
      segAlloc cfg w a=w.took (unsentAppend cfg (w.tab.setSeg i a.row) a.pcb i) i := by
  unfold segAlloc
  split_ifs with hr hu hd
  · exact .inl ⟨rfl,by simp [noIndex]⟩
  · exact .inl ⟨rfl,by simp [noIndex]⟩
  · exact .inl ⟨rfl,by simp [noIndex]⟩
  have hp : w.ready ∧ a.pcb < cfg.tcpPcbs := by simpa using hr
  split
  · exact .inl ⟨rfl,by simp [noIndex]⟩
  rename_i i hi
  obtain ⟨hfree,hlt,-⟩ := firstIndex_some.mp hi
  exact .inr ⟨i,hlt,by simpa using hfree,hp.2,by simpa using hu,rfl⟩

/-- `seg_sent` takes the first unsent segment and appends it to the unacknowledged ones. -/
theorem segSent_cases : (segSent cfg w i).tab=w.tab ∨
    i < cfg.tcpSegs ∧ (w.tab.seg i).inUse ∧ (w.tab.seg i).pcb < cfg.tcpPcbs ∧ (w.tab.tcb (w.tab.seg i).pcb).unsent=i ∧
      (segSent cfg w i).tab=(unackedAppend cfg (sentTables w.tab i) (w.tab.seg i).pcb i).getD (sentTables w.tab i) := by
  unfold segSent
  dsimp only
  split_ifs with hr hu hh
  · exact .inl rfl
  · exact .inl rfl
  · exact .inl rfl
  have hi : w.ready ∧ i < cfg.tcpSegs := by simpa using hr
  have hs : (w.tab.seg i).inUse ∧ (w.tab.seg i).pcb < cfg.tcpPcbs := by simpa using hu
  refine .inr ⟨hi.2,hs.1,hs.2,not_not.mp hh,?_⟩
  cases unackedAppend cfg (sentTables w.tab i) (w.tab.seg i).pcb i <;> rfl

/-- `seg_free` unlinks a segment and zeroes its row or leaves the tables. -/
theorem segFree_cases : (segFree cfg w i).tab=w.tab ∨
    i < cfg.tcpSegs ∧ (w.tab.seg i).inUse ∧ (w.tab.seg i).pcb < cfg.tcpPcbs ∧
      ∃ t,segUnlink cfg w.tab (w.tab.seg i).pcb i=some t ∧ (segFree cfg w i).tab=t.setSeg i .zero := by
  unfold segFree
  dsimp only
  split_ifs with hr hu
  · exact .inl rfl
  · exact .inl rfl
  have hi : w.ready ∧ i < cfg.tcpSegs := by simpa using hr
  have hs : (w.tab.seg i).inUse ∧ (w.tab.seg i).pcb < cfg.tcpPcbs := by simpa using hu
  cases hl : segUnlink cfg w.tab (w.tab.seg i).pcb i with
  | none => exact .inl rfl
  | some t => exact .inr ⟨hi.2,hs.1,hs.2,t,rfl,rfl⟩

variable (cfg w) in
/-- `oos_alloc` threads a free row or leaves the tables. -/
theorem oosAlloc_cases (a : OosArgs) : ((oosAlloc cfg w a).tab=w.tab ∧ (oosAlloc cfg w a).io.status≠.ok) ∨
    ∃ i < cfg.tcpOoseqEntries,(w.tab.oos i).inUse=false ∧ a.pcb < cfg.tcpPcbs ∧ (w.tab.tcb a.pcb).inUse ∧ a.len≠0 ∧
      (walk w.tab.oosNext cfg.tcpOoseqEntries cfg.tcpOoseqEntries (w.tab.tcb a.pcb).ooseq).length< cfg.tcpOoseqSegs ∧
      oosAlloc cfg w a=w.took (oosInsert cfg (w.tab.setOos i a.row) a.pcb i) i := by
  unfold oosAlloc
  dsimp only
  split_ifs with hr hu hf
  · exact .inl ⟨rfl,by simp [noIndex]⟩
  · exact .inl ⟨rfl,by simp [noIndex]⟩
  · exact .inl ⟨rfl,by simp [noIndex]⟩
  have hp : w.ready ∧ a.pcb < cfg.tcpPcbs := by simpa using hr
  have hl : (w.tab.tcb a.pcb).inUse ∧ a.len≠0 := by simpa using hu
  split
  · exact .inl ⟨rfl,by simp [noIndex]⟩
  rename_i i hi
  obtain ⟨hfree,hlt,-⟩ := firstIndex_some.mp hi
  exact .inr ⟨i,hlt,by simpa using hfree,hp.2,hl.1,hl.2,not_le.mp hf,rfl⟩

/-- `oos_free` unlinks a held segment and zeroes its row or leaves the tables. -/
theorem oosFree_cases : (oosFree cfg w i).tab=w.tab ∨
    i < cfg.tcpOoseqEntries ∧ (w.tab.oos i).inUse ∧ (w.tab.oos i).pcb < cfg.tcpPcbs ∧
      ∃ t,oosUnlink cfg w.tab (w.tab.oos i).pcb i=some t ∧ (oosFree cfg w i).tab=t.setOos i .zero := by
  unfold oosFree
  dsimp only
  split_ifs with hr hu
  · exact .inl rfl
  · exact .inl rfl
  have hi : w.ready ∧ i < cfg.tcpOoseqEntries := by simpa using hr
  have hs : (w.tab.oos i).inUse ∧ (w.tab.oos i).pcb < cfg.tcpPcbs := by simpa using hu
  cases hl : oosUnlink cfg w.tab (w.tab.oos i).pcb i with
  | none => exact .inl rfl
  | some t => exact .inr ⟨hi.2,hs.1,hs.2,t,rfl,rfl⟩

/-- Tables that differ in the links of held segments alone. -/
structure Relinked (t u : Tables) : Prop where
  /-- A connection keeps all but its first held segment. -/
  tcb : ∀ k,∃ o,u.tcb k={t.tcb k with ooseq := o}
  /-- A held segment keeps all but its link. -/
  oos : ∀ k,∃ n,u.oos k={t.oos k with next := n}
  listener : u.listener=t.listener

theorem Relinked.trans {t u v : Tables} (h : Relinked t u) (k : Relinked u v) : Relinked t v := by
  refine ⟨fun i => ?_,fun i => ?_,k.listener.trans h.listener⟩
  · obtain ⟨o,ho⟩ := h.tcb i
    obtain ⟨o',ho'⟩ := k.tcb i
    exact ⟨o',by rw [ho',ho]⟩
  · obtain ⟨n,hn⟩ := h.oos i
    obtain ⟨n',hn'⟩ := k.oos i
    exact ⟨n',by rw [hn',hn]⟩

variable (t) in
theorem Relinked.linkOos (i n : ℕ) : Relinked t (t.linkOos i n) := by
  refine ⟨fun _ => ⟨_,rfl⟩,fun k => ?_,rfl⟩
  unfold Tables.linkOos
  by_cases hk : k=i
  · subst hk
    exact ⟨n,by simp⟩
  · exact ⟨_,by simp [hk]; rfl⟩

theorem Relinked.setHead {p o : ℕ} : Relinked t (t.setTcb p {t.tcb p with ooseq := o}) := by
  refine ⟨fun k => ?_,fun _ => ⟨_,rfl⟩,rfl⟩
  by_cases hk : k=p
  · subst hk
    exact ⟨o,by simp⟩
  · exact ⟨_,by simp [hk]; rfl⟩

variable (cfg t) in
theorem oosInsert_relinked (p i : ℕ) : Relinked t (oosInsert cfg t p i) := by
  unfold oosInsert
  dsimp only
  split_ifs
  · exact (Relinked.linkOos t i _).trans (Relinked.setHead)
  · exact (Relinked.linkOos t i _).trans (Relinked.linkOos _ _ i)

theorem oosUnlink_relinked {t v : Tables} {p i : ℕ} (h : oosUnlink cfg t p i=some v) : Relinked t v := by
  unfold oosUnlink at h
  split_ifs at h
  · cases h
    exact Relinked.setHead
  split at h
  · cases h
    exact Relinked.linkOos t _ _
  · cases h

end Cases

section Queues

variable (cfg : Config)

/-- A row with its three queues forgotten. -/
def Tcb.unqueued (x : Tcb) : Tcb := {x with unsent := noneIndex,unacked := noneIndex,ooseq := noneIndex}

/-- Connections differ in their queues alone, and listeners stay. -/
structure SameRows (t u : Tables) : Prop where
  /-- Everything of a row but its queues stays. -/
  row : ∀ k,(u.tcb k).unqueued=(t.tcb k).unqueued
  listener : u.listener=t.listener

variable {t u : Tables}

theorem SameRows.of_eq (h : u.tcb=t.tcb) (hl : u.listener=t.listener) : SameRows t u :=
  ⟨fun k => by rw [h],hl⟩

theorem SameRows.of_tab (h : u=t) : SameRows t u :=
  .of_eq (congrArg Tables.tcb h) (congrArg Tables.listener h)

variable {v : Tables}

theorem SameRows.trans (h : SameRows t u) (k : SameRows u v) : SameRows t v :=
  ⟨fun i => (k.row i).trans (h.row i),k.listener.trans h.listener⟩

variable {β : Type}

theorem SameRows.keeps (h : SameRows t u) (f : Tcb → β) (hf : ∀ x,f x.unqueued=f x) (k : ℕ) : f (u.tcb k)=f (t.tcb k) := by
  rw [←hf (u.tcb k),h.row k,hf]

theorem Relinked.sameRows (h : Relinked t u) : SameRows t u := by
  refine ⟨fun k => ?_,h.listener⟩
  obtain ⟨o,ho⟩ := h.tcb k
  rw [ho]
  rfl

/-- A row with its two send queues forgotten. -/
def Tcb.unsegued (x : Tcb) : Tcb := {x with unsent := noneIndex,unacked := noneIndex}

/-- Connections differ in their send queues alone, and held segments and listeners stay. -/
structure SameHeld (t u : Tables) : Prop where
  /-- Everything of a row but its send queues stays. -/
  row : ∀ k,(u.tcb k).unsegued=(t.tcb k).unsegued
  oos : u.oos=t.oos
  listener : u.listener=t.listener

theorem SameHeld.of_eq (h : u.tcb=t.tcb) (ho : u.oos=t.oos) (hl : u.listener=t.listener) : SameHeld t u :=
  ⟨fun k => by rw [h],ho,hl⟩

theorem SameHeld.of_tab (h : u=t) : SameHeld t u :=
  .of_eq (congrArg Tables.tcb h) (congrArg Tables.oos h) (congrArg Tables.listener h)

theorem SameHeld.trans (h : SameHeld t u) (k : SameHeld u v) : SameHeld t v :=
  ⟨fun i => (k.row i).trans (h.row i),k.oos.trans h.oos,k.listener.trans h.listener⟩

variable {i : ℕ} {x : Tcb}

theorem SameHeld.setTcb (hx : x.unsegued=(t.tcb i).unsegued) : SameHeld t (t.setTcb i x) :=
  ⟨fun k => t.setTcb_keeps i Tcb.unsegued hx k,rfl,rfl⟩

theorem SameHeld.keeps (h : SameHeld t u) (f : Tcb → β) (hf : ∀ x,f x.unsegued=f x) (k : ℕ) : f (u.tcb k)=f (t.tcb k) := by
  rw [←hf (u.tcb k),h.row k,hf]

theorem SameHeld.sameRows (h : SameHeld t u) : SameRows t u :=
  ⟨fun k => h.keeps Tcb.unqueued (fun _ => rfl) k,h.listener⟩

theorem sendQueuesFree_sameHeld (t : Tables) (p : ℕ) : SameHeld t (sendQueuesFree cfg t p) := by
  have hf : SameHeld t (queueFree cfg (queueFree cfg t (t.tcb p).unsent) (t.tcb p).unacked) := .of_eq rfl rfl rfl
  exact hf.trans (.setTcb rfl)

theorem unsentAppend_sameHeld {t : Tables} {p i : ℕ} : SameHeld t (unsentAppend cfg t p i) := by
  unfold unsentAppend
  split_ifs
  · exact .setTcb rfl
  · split <;> exact .of_eq rfl rfl rfl

variable {p : ℕ}

theorem unackedAppend_sameHeld (h : unackedAppend cfg t p i=some u) : SameHeld t u := by
  unfold unackedAppend at h
  split_ifs at h
  · cases h
    exact .setTcb rfl
  split at h
  · cases h
    exact .of_eq rfl rfl rfl
  · cases h

theorem segUnlink_sameHeld (h : segUnlink cfg t p i=some u) : SameHeld t u := by
  unfold segUnlink at h
  split at h
  · cases h
    exact .setTcb rfl
  split at h
  · cases h
    exact .of_eq rfl rfl rfl
  split at h
  · cases h
    exact .setTcb rfl
  split at h
  · cases h
    exact .of_eq rfl rfl rfl
  · cases h

theorem segSent_sameHeld {w : Work} {i : ℕ} : SameHeld w.tab (segSent cfg w i).tab := by
  have hst : SameHeld w.tab (w.tab.setTcb (w.tab.seg i).pcb
      {w.tab.tcb (w.tab.seg i).pcb with unsent := (w.tab.seg i).next}) := .setTcb rfl
  have hs : SameHeld w.tab (sentTables w.tab i) := ⟨hst.row,rfl,rfl⟩
  rcases segSent_cases with h|⟨-,-,-,-,h⟩
  · exact .of_tab h
  rw [h]
  cases hu : unackedAppend cfg (sentTables w.tab i) (w.tab.seg i).pcb i with
  | none => exact hs
  | some u => exact hs.trans (unackedAppend_sameHeld cfg hu)

/-- Whether a call touches nothing but send queues and reports. -/
def Call.keepsHeld : Call → Bool
  | .load _ | .find _ | .findListener _ | .segAlloc _ | .segLoad _ | .segSent _ | .segFree _ | .oosLoad _ => true
  | _ => false

variable {w : Work} {c : Call}

theorem step_sameHeld (hc : c.keepsHeld) : SameHeld w.tab (step cfg w c).tab := by
  cases c with
  | load p => exact .of_tab (load_tab p)
  | find a => exact .of_tab (find_tab a)
  | findListener a => exact .of_tab (findListener_tab a)
  | segAlloc a =>
    rcases segAlloc_cases a with ⟨ht,-⟩|⟨i,-,-,-,-,he⟩
    · exact .of_tab ht
    have hs : SameHeld w.tab (w.tab.setSeg i a.row) := .of_eq rfl rfl rfl
    show SameHeld w.tab (segAlloc cfg w a).tab
    rw [he]
    exact hs.trans (unsentAppend_sameHeld cfg)
  | segLoad i => exact .of_tab (segLoad_tab)
  | segSent i => exact segSent_sameHeld cfg
  | segFree i =>
    rcases segFree_cases with ht|⟨-,-,-,t,ht,he⟩
    · exact .of_tab ht
    show SameHeld w.tab (segFree cfg w i).tab
    rw [he]
    exact (segUnlink_sameHeld cfg ht).trans (.of_eq rfl rfl rfl)
  | oosLoad i => exact .of_tab (oosLoad_tab)
  | _ => cases hc

/-- Whether a call touches nothing of the connections but their queues. -/
def Call.keepsRows : Call → Bool
  | .load _ | .find _ | .findListener _ | .segAlloc _ | .segLoad _ | .segSent _ | .segFree _ | .oosAlloc _ | .oosLoad _
  | .oosFree _ => true
  | _ => false

theorem step_sameRows (hc : c.keepsRows) : SameRows w.tab (step cfg w c).tab := by
  cases c with
  | oosAlloc a =>
    rcases oosAlloc_cases cfg w a with ⟨ht,-⟩|⟨i,-,-,-,-,-,-,he⟩
    · exact .of_tab ht
    have hs : SameRows w.tab (w.tab.setOos i a.row) := .of_eq rfl rfl
    show SameRows w.tab (oosAlloc cfg w a).tab
    rw [he]
    exact hs.trans (oosInsert_relinked cfg (w.tab.setOos i a.row) a.pcb i).sameRows
  | oosFree i =>
    rcases oosFree_cases with ht|⟨-,-,-,t,ht,he⟩
    · exact .of_tab ht
    show SameRows w.tab (oosFree cfg w i).tab
    rw [he]
    exact (oosUnlink_relinked ht).sameRows.trans (.of_eq rfl rfl)
  | clear | openTcb _ | opt _ | close _ | bind _ | connect _ | store _ _ _ _ | accept _ _ | listen _ | unlisten _ => cases hc
  | _ => exact (step_sameHeld cfg rfl).sameRows

/-- Every connection in use and its state are as they were, and so are the listeners. -/
structure SameStates (t u : Tables) : Prop where
  /-- No row is taken, freed or moved to another state. -/
  row : ∀ k,(u.tcb k).inUse=(t.tcb k).inUse ∧ (u.tcb k).state=(t.tcb k).state
  listener : u.listener=t.listener

theorem SameRows.sameStates (h : SameRows t u) : SameStates t u :=
  ⟨fun k => ⟨h.keeps Tcb.inUse (fun _ => rfl) k,h.keeps Tcb.state (fun _ => rfl) k⟩,h.listener⟩

theorem SameStates.of_tab (h : u=t) : SameStates t u := (SameRows.of_tab h).sameStates

theorem SameStates.setTcb (hu : x.inUse=(t.tcb i).inUse) (hs : x.state=(t.tcb i).state) : SameStates t (t.setTcb i x) :=
  ⟨fun k => ⟨t.setTcb_keeps i Tcb.inUse hu k,t.setTcb_keeps i Tcb.state hs k⟩,rfl⟩

theorem Renames.sameStates (h : Renames cfg t u) : SameStates t u := by
  rcases h with rfl|⟨i,x,-,-,hx,rfl⟩
  · exact .of_tab rfl
  · exact .setTcb hx.inUse hx.state

theorem store_inUse (w : Work) (p k : ℕ) : ((store cfg w p).tab.tcb k).inUse=(w.tab.tcb k).inUse := by
  rcases store_cases p with ⟨ht,-⟩|⟨-,-,-,-,he⟩
  · rw [ht]
  · rw [he]
    exact w.tab.setTcb_keeps p Tcb.inUse (by rfl) k

theorem store_listener {w : Work} {p : ℕ} : (store cfg w p).tab.listener=w.tab.listener := by
  rcases store_cases p with ⟨ht,-⟩|⟨-,-,-,-,he⟩
  · rw [ht]
  · rw [he]
    rfl

/-- No connection in use is in LISTEN. -/
def NoListen (t : Tables) : Prop := ∀ i < cfg.tcpPcbs,(t.tcb i).inUse=true → (t.tcb i).state≠.listen

theorem NoListen.same (h : NoListen cfg t) (hs : SameStates t u) : NoListen cfg u := by
  intro i hi hu
  rw [(hs.row i).2]
  exact h i hi ((hs.row i).1 ▸ hu)

theorem NoListen.of_tcb (h : NoListen cfg t) (hs : u.tcb=t.tcb) : NoListen cfg u := by
  intro i
  rw [hs]
  exact h i

theorem NoListen.setTcb (h : NoListen cfg t) (hx : x.inUse → x.state≠.listen) : NoListen cfg (t.setTcb i x) := by
  intro k hk hu
  rw [Tables.setTcb_tcb] at hu ⊢
  split_ifs at hu ⊢ with hki
  · exact hx hu
  · exact h k hk hu

/-- Whether a call stores LISTEN. -/
def Call.storesListen : Call → Bool
  | .store _ _ _ state => state==.listen
  | _ => false

/-- Whether a call can neither take, free or move a connection nor touch a listener. -/
def Call.keepsStates : Call → Bool
  | .clear | .openTcb _ | .close _ | .store _ _ _ _ | .listen _ | .unlisten _ => false
  | _ => true

theorem step_sameStates (hc : c.keepsStates) : SameStates w.tab (step cfg w c).tab := by
  cases c with
  | opt a => exact (opt_renames a).sameStates cfg
  | bind a => exact (bind_renames).sameStates cfg
  | connect a => exact (connect_renames).sameStates cfg
  | accept p l => exact (accept_renames p l).sameStates cfg
  | clear | openTcb _ | close _ | store _ _ _ _ | listen _ | unlisten _ => cases hc
  | _ => exact (step_sameRows cfg rfl).sameStates

theorem step_noListen (h : NoListen cfg w.tab) (hc : c.storesListen=false) : NoListen cfg (step cfg w c).tab := by
  cases c with
  | clear => exact nofun
  | openTcb v =>
    rcases openTcb_cases with ⟨ht,-⟩|⟨i,-,-,-,-,he⟩
    · exact h.same cfg (.of_tab ht)
    show NoListen cfg (openTcb cfg w v).tab
    rw [he]
    exact h.setTcb cfg fun _ => by simp [Tcb.opened]
  | close p =>
    rcases close_cases p with ht|⟨-,-,-,he⟩
    · exact h.same cfg (.of_tab ht)
    show NoListen cfg (close cfg w p).tab
    rw [he]
    exact (h.same cfg (sendQueuesFree_sameHeld cfg w.tab p).sameRows.sameStates).setTcb cfg nofun
  | store p vars ctl state =>
    rcases store_cases p with ⟨ht,-⟩|⟨-,-,-,-,he⟩
    · exact h.same cfg (.of_tab ht)
    show NoListen cfg (store cfg (w.image vars ctl state) p).tab
    rw [he]
    exact h.setTcb cfg fun _ => by simpa [Call.storesListen,Work.image] using hc
  | listen a => exact h.of_tcb cfg (show (listen cfg w a).tab.tcb=w.tab.tcb by rw [listen_tab])
  | unlisten i => exact h.of_tcb cfg (show (unlisten cfg w i).tab.tcb=w.tab.tcb by rw [unlisten_tab])
  | _ => exact h.same cfg (step_sameStates cfg rfl)

/-- No listener in use listens on port zero. -/
def ListenersNamed (t : Tables) : Prop := ∀ l,(t.listener l).inUse=true → (t.listener l).localPort≠0

theorem ListenersNamed.same (h : ListenersNamed t) (hs : u.listener=t.listener) : ListenersNamed u := by
  unfold ListenersNamed
  rw [hs]
  exact h

theorem ListenersNamed.setListener {x : Listener} (h : ListenersNamed t)
    (hx : x.inUse → x.localPort≠0) : ListenersNamed (t.setListener i x) := by
  intro l
  by_cases hl : l=i
  · subst hl
    simpa [Tables.setListener] using hx
  · simpa [Tables.setListener,hl] using h l

/-- `listen` refuses port zero, and no other call names a listener. -/
theorem step_listenersNamed (c : Call) (h : ListenersNamed w.tab) : ListenersNamed (step cfg w c).tab := by
  cases c with
  | clear => exact nofun
  | openTcb v =>
    rcases openTcb_cases with ⟨ht,-⟩|⟨i,-,-,-,-,he⟩
    · exact h.same (congrArg Tables.listener ht)
    · exact h.same (congrArg (fun x => x.tab.listener) he)
  | close p =>
    rcases close_cases p with ht|⟨-,-,-,he⟩
    · exact h.same (congrArg Tables.listener ht)
    show ListenersNamed (close cfg w p).tab
    rw [he]
    exact h.same (sendQueuesFree_sameHeld cfg w.tab p).listener
  | store p vars ctl state =>
    exact h.same (store_listener cfg)
  | listen a =>
    show ListenersNamed (listen cfg w a).tab
    rcases listen_cases with ⟨ht,-⟩|⟨i,x,ht,hp,-⟩
    · rw [ht]
      exact h
    · rw [ht]
      exact h.setListener fun _ => hp
  | unlisten i =>
    show ListenersNamed (unlisten cfg w i).tab
    rcases unlisten_cases with ht|ht
    · rw [ht]
      exact h
    · rw [ht]
      exact h.setListener nofun
  | _ => exact h.same (step_sameStates cfg rfl).listener

end Queues

end IdemIp.TcpPcb
