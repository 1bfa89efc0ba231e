import IdemIp.DispatchReorder

/-!
# The dispatcher as a caller of the connection tables

Whatever the dispatcher does to the connection tables, calls of theirs do. So what
the calls keep, every run of frames, re-deliveries, acknowledgments and application
calls keeps: the queues stay well formed, and draining a held queue ends.
-/

namespace IdemIp.Dispatch

open StepRun TcpPcb

section Reaches

variable {cfg : Config} {w : Work} {s : Side} {a : InputArgs} {i : ℕ}

theorem dTcpHold_reaches (h : Reaches cfg w s.tcpPcb) : Reaches cfg w (dTcpHold cfg s a i).tcpPcb := by
  have hp : (dPin cfg s s.io.netif a.desc).1.tcpPcb=s.tcpPcb := by rw [dPin_eq]
  have ha := h.call (.oosAlloc (holdArgs s a i))
  unfold dTcpHold
  dsimp only
  rw [hp]
  split_ifs
  · exact h
  · rw [hp]
    exact h
  · rw [dUnpin_eq]
    exact ha
  · exact ha

theorem dTcpSegment_reaches (h : Reaches cfg w s.tcpPcb) : Reaches cfg w (dTcpSegment cfg s a i).tcpPcb := by
  have hp : Reaches cfg w (placeText cfg (reported cfg s a i) a i).tcpPcb := by
    have hh : Reaches cfg w (dTcpHold cfg (reported cfg s a i) a i).tcpPcb := dTcpHold_reaches h
    unfold placeText
    dsimp only
    split_ifs <;> first | exact hh | exact h
  obtain ⟨_,_,_,_,hr,-⟩ := dTcpReply_eq (s := dTcpStore cfg (placeText cfg (reported cfg s a i) a i) i)
  rw [dTcpSegment_eq,hr]
  exact hp.call (.store i _ _ _)

theorem dTcpAccept_reaches {l : ℕ} (lip rip : Octets) (lport rport : BitVec 16) (h : Reaches cfg w s.tcpPcb) :
    Reaches cfg w (dTcpAccept cfg s l i lip rip lport rport).tcpPcb := by
  have ha := ((h.call (.bind ⟨some lip,s.bindRand,i,lport,0,s.io.netif⟩)).call
    (.connect ⟨some rip,0,i,rport,0,s.io.netif⟩)).call (.accept i l)
  unfold dTcpAccept
  dsimp only
  split_ifs
  · exact ha.call (.close i)
  · exact ha.call (.store i _ _ _)

theorem dTcp_reaches {fr lip rip : Octets} {ver : ℕ} (h : Reaches cfg w s.tcpPcb) :
    Reaches cfg w (dTcp cfg s a fr lip rip ver).tcpPcb := by
  have hrt := dTcp_route cfg s a fr lip rip ver
  generalize dTcp cfg s a fr lip rip ver=u at hrt ⊢
  cases hrt with
  | ends tp ti io htab hr hk hd hf => exact h.same htab hr
  | segment i hi => exact dTcpSegment_reaches (Reaches.call (u := s.tcpPcb.took s.tcpPcb.tab i) h (.load i))
  | syn l i hn hl hp hsyn hi hfree hopen => exact dTcpAccept_reaches lip rip _ _ (h.call (.openTcb ver))

theorem tcpDeliver_reaches (h : Reaches cfg w s.tcpPcb) : Reaches cfg w (tcpDeliver cfg s i).tcpPcb := by
  have hrt := tcpDeliver_route cfg s i
  generalize tcpDeliver cfg s i=u at hrt ⊢
  cases hrt with
  | refused io hac hg hc hb => exact h
  | idle v io ht hr hac hg hc hb => exact h.same ht hr
  | held v ht hr hi hu hv hj hju ha hg =>
    have hrd : s.tcpPcb.ready := by
      unfold heldReached at hg
      simp_all
    have hs := h.same ht (hr.trans hrd.symm)
    refine Reaches.call ?_ (.oosFree _)
    unfold deliverHeld
    dsimp only
    split_ifs
    · exact hs.call (.store i _ _ _)
    · exact hs

theorem step_reaches {ok : Call → Prop} (s : Stack) (ev : Event ok) (h : Reaches cfg w s.side.tcpPcb) :
    Reaches cfg w (step cfg s ev).side.tcpPcb := by
  cases ev with
  | input e a =>
    show Reaches cfg w (input cfg e s a).side.tcpPcb
    rcases input_route cfg e s a with ⟨r,-,hd⟩|⟨-,hd⟩
    · rw [hd,handed_side]
      exact dTcp_reaches h
    · obtain ⟨ring,io,ifRow,he,-⟩ := hd.keeps
      rw [he]
      exact h
  | deliver i => exact tcpDeliver_reaches h
  | ack =>
    obtain ⟨tp,io,pcbRow,he,ht,hr,-⟩ := tcpAckFlush_frame cfg s.side
    show Reaches cfg w (tcpAckFlush cfg s.side).tcpPcb
    rw [he]
    exact h.same ht hr
  | app c hc => exact h.call c

/-- A re-delivery reports OK only for a connection in use on a stack that is bound. -/
theorem tcpDeliver_ok (h : (tcpDeliver cfg s i).io.status=.ok) :
    s.ready ∧ s.tcpPcbBound ∧ s.tcpPcb.ready ∧ i < cfg.tcpPcbs ∧ (s.tcpPcb.tab.tcb i).inUse := by
  unfold tcpDeliver at h
  dsimp only at h
  split_ifs at h with hr hb
  rw [unpinned_eq] at h
  unfold deliverFrom at h
  rcases load_cases cfg i s.tcpPcb with ⟨io,hl,hst,-⟩|⟨ht,hi,hu⟩
  · have hl' : load cfg (deliverSide cfg s s.tcpPcb {s.io.reset with status := .err}).tcpPcb i={s.tcpPcb with io := io} := hl
    simp only [hl'] at h
    rw [if_pos hst] at h
    cases h
  · exact ⟨by simpa using hr,by simp at hb; exact hb.1,ht,hi,hu⟩

end Reaches

section Runs

variable {ok : Call → Prop} (cfg : Config) (s : Stack) (evs : List (Event ok))

/-- Frames, re-deliveries, acknowledgments and application calls do to the tables what calls of theirs do. -/
theorem run_reaches : ∃ cs,(run (step cfg) s evs).tab=(run (TcpPcb.step cfg) s.side.tcpPcb cs).tab := by
  obtain ⟨cs,h,-⟩ : Reaches cfg s.side.tcpPcb (run (step cfg) s evs).side.tcpPcb := run_always step_reaches ⟨[],rfl,rfl⟩
  exact ⟨cs,h⟩

/-- The stack with its connection tables cleared. -/
def Stack.emptied : Stack := s.onSide fun t => {t with tcpPcb := TcpPcb.clear t.tcpPcb}

theorem emptied_reaches : Reaches cfg (TcpPcb.clear s.side.tcpPcb) (run (step cfg) s.emptied evs).side.tcpPcb :=
  run_always step_reaches ⟨[],rfl,rfl⟩

/-- From cleared tables on no queue loses its end, runs into itself, shares a row or holds more than its share. -/
theorem run_queued : ∃ n born,QueuesOk cfg ⟨(run (step cfg) s.emptied evs).side.tcpPcb,n,born⟩ := by
  obtain ⟨n,born,un,ua,oo,hq⟩ := (emptied_reaches cfg s evs).represents
  exact ⟨n,born,hq.queuesOk⟩

/-- From cleared tables on the loop over `tcp_deliver` ends: it gets OK at most as often as segments may be held. -/
theorem run_drained (p : ℕ) (stream : List (BitVec 32)) :
    (drain cfg p (cfg.tcpOoseqSegs+1) ⟨run (step cfg) s.emptied evs,stream⟩).stack.side.io.status≠.ok := by
  intro hok
  have hd : (tcpDeliver cfg (run (step cfg) s.emptied evs).side p).io.status=.ok := by
    by_contra hn
    unfold drain at hok
    rw [if_neg (by exact hn)] at hok
    exact hn hok
  obtain ⟨hr,hb,ht,hp,hu⟩ := tcpDeliver_ok hd
  obtain ⟨n,born,un,ua,oo,hq⟩ := (emptied_reaches cfg s evs).represents
  have hbusy := drain_busy (x := ⟨run (step cfg) s.emptied evs,stream⟩) (cfg.tcpOoseqSegs+1)
    ⟨hr,hb,ht,hp,hu,oo,hq.oos,rfl⟩ (Nat.lt_succ_of_le (hq.oos.queues p hp hu).length)
  cases hok.symm.trans hbusy

end Runs

end IdemIp.Dispatch
