import QuardStarNet.UdpSockets

/-! Work on the contents of packets. It changes no reference to a packet, no queue and no control
block. -/
namespace QuardStarNet

open Pktbuf

namespace NetLink

/-- The layers below ARP before and after such work. -/
structure Touch (w w' : NetLink) : Prop where
  netifs : w'.netifs = w.netifs
  fates : w'.fates = w.fates
  freedTwice : w'.freedTwice = w.freedTwice
  pktbufList : w'.pool.pktbufList = w.pool.pktbufList
  ref : ∀ b, (w'.pool.bufs b).ref = (w.pool.bufs b).ref

variable {w w' w'' : NetLink} {b : BufId}

namespace Touch

theorem refl (w : NetLink) : w.Touch w := ⟨rfl,rfl,rfl,rfl,fun _ => rfl⟩

theorem trans (h : w.Touch w') (h' : w'.Touch w'') : w.Touch w'' :=
  ⟨h'.netifs.trans h.netifs,h'.fates.trans h.fates,h'.freedTwice.trans h.freedTwice,
    h'.pktbufList.trans h.pktbufList,fun b => (h'.ref b).trans (h.ref b)⟩

theorem setBuf {x : Buf} (hx : x.ref = (w.pool.bufs b).ref) (blocks : List Pktblk) :
    w.Touch { w with pool := { w.pool.setBuf b x with blockList := blocks } } := by
  refine ⟨rfl,rfl,rfl,rfl,fun c => ?_⟩
  by_cases hc : c = b
  · subst hc
    simpa [Pool.setBuf] using hx
  · simp [Pool.setBuf,hc]

theorem onBytes {α : Type} {f : Buf → Buf × α} (hf : ∀ x, (f x).1.ref = x.ref) :
    w.Touch (w.onBytes b f).1 := setBuf (hf _) w.pool.blockList

theorem onBlocks {f : Buf → List Pktblk → (List Pktblk × Buf) × NetErr}
    (hf : ∀ x free, (f x free).1.2.ref = x.ref) : w.Touch (w.onBlocks b f).1 :=
  setBuf (hf _ _) _

end Touch

theorem touch_resetAcc : w.Touch (w.pktbufResetAcc b) := .onBytes fun _ => Buf.pktbufResetAcc_ref _

theorem touch_read (size : ℤ) : w.Touch (w.pktbufRead b size).1 :=
  .onBytes fun _ => Buf.pktbufRead_ref _

theorem touch_checksum (size : ℤ) (preSum : ℕ) : w.Touch (w.pktbufChecksum16 b size preSum).1 :=
  .onBytes fun _ => Buf.pktbufChecksum16_ref _ _

theorem touch_removeHeader (size : ℤ) : w.Touch (w.pktbufRemoveHeader b size).1 :=
  .onBlocks fun _ _ => Buf.pktbufRemoveHeader_ref _ _

theorem touch_resize (toSize : ℤ) : w.Touch (w.pktbufResize b toSize).1 :=
  .onBlocks fun _ _ => Buf.pktbufResize_ref _ _

theorem touch_setCont (size : ℤ) : w.Touch (w.pktbufSetCont b size).1 :=
  .onBlocks fun _ _ => Buf.pktbufSetCont_ref _ _

end NetLink

namespace NetStack

/-- The stack before and after work on packets. -/
def Touch (s t : NetStack) : Prop := ∃ w, s.link.Touch w ∧ t = s.setLink w

variable {s t t' : NetStack} {b : BufId}

@[simp] theorem setLink_link (w : NetLink) : (s.setLink w).link = w := rfl

@[simp] theorem setLink_setLink (w w' : NetLink) : (s.setLink w).setLink w' = s.setLink w' := rfl

/-- A call of the layer below ARP. -/
theorem onLink_eq {α : Type} {f : NetLink → NetLink × α} {x : α} (h : s.onLink f = (t,x)) :
    ∃ w, f s.link = (w,x) ∧ t = s.setLink w := by
  rw [onLink,Prod.mk.injEq] at h
  exact ⟨(f s.link).1,Prod.ext rfl h.2,h.1.symm⟩

theorem Touch.refl (s : NetStack) : s.Touch s := ⟨s.link,.refl _,rfl⟩

theorem Touch.trans (h : s.Touch t) (h' : t.Touch t') : s.Touch t' := by
  obtain ⟨w,hw,rfl⟩ := h
  obtain ⟨w',hw',rfl⟩ := h'
  exact ⟨w',hw.trans hw',rfl⟩

theorem Touch.onLink {α : Type} {f : NetLink → NetLink × α} (hf : s.link.Touch (f s.link).1) :
    s.Touch (s.onLink f).1 := ⟨_,hf,rfl⟩

theorem Touch.udp (h : s.Touch t) : t.udp = s.udp := by
  obtain ⟨w,-,rfl⟩ := h
  rfl

theorem Touch.fate (h : s.Touch t) : t.link.fate = s.link.fate := by
  obtain ⟨w,hw,rfl⟩ := h
  exact congrArg (fun l : List NetErr => l.headD .ok) hw.fates

theorem touch_contData (size : ℤ) : s.Touch (s.contData b size).1 := by
  have h : s.Touch (s.onLink fun w => w.pktbufSetCont b size).1 :=
    .onLink (NetLink.touch_setCont size)
  unfold contData
  split
  · next heq => rwa [heq] at h
  · next heq => rwa [heq] at h

theorem touch_transportChecksum (w : NetLink) (src dest : IpAddr) (protocol : Byte)
    (length : BitVec 16) : w.Touch (transportChecksum w b src dest protocol length).1 :=
  NetLink.touch_resetAcc.trans (NetLink.touch_checksum _ _)

/-- The checks of `udp_in`. -/
theorem touch_udpCheck (src dest : IpAddr) : s.Touch (s.udpCheck b src dest).1 := by
  have hcont := touch_contData (s := s) (b := b) udpHeaderSize
  unfold udpCheck
  split
  · next heq => rwa [heq] at hcont
  · next t data heq =>
    rw [heq] at hcont
    dsimp only
    split
    · exact hcont
    · generalize hr : (if (UdpHdr.ofBytes data).checksum = 0 then (t,0) else
        t.onLink fun w => transportChecksum w b src dest netProtocolUdp _) = r
      have hsum : t.Touch r.1 := by
        subst hr
        split
        · exact .refl _
        · exact .onLink (touch_transportChecksum _ _ _ _ _)
      split
      · exact hcont.trans hsum
      · have hresize : r.1.Touch
            (r.1.onLink fun w => w.pktbufResize b (UdpHdr.ofBytes data).totalLen.toNat).1 :=
          .onLink (NetLink.touch_resize _)
        split
        · next heq' =>
          rw [heq'] at hresize
          exact (hcont.trans hsum).trans hresize
        · next heq' =>
          rw [heq'] at hresize
          exact (hcont.trans hsum).trans hresize

theorem touch_udpRead (size : ℕ) : s.Touch (s.udpRead b size).1 := by
  have hremove : s.Touch (s.onLink fun w => w.pktbufRemoveHeader b udpHeaderSize).1 :=
    .onLink (NetLink.touch_removeHeader _)
  unfold udpRead
  split
  · next t heq =>
    rw [heq] at hremove
    have hread : t.Touch
        (t.onLink fun w => (w.pktbufResetAcc b).pktbufRead b (min (w.pktbufTotal b) size)).1 :=
      .onLink (NetLink.touch_resetAcc.trans (NetLink.touch_read _))
    split
    · next heq' =>
      rw [heq'] at hread
      exact hremove.trans hread
    · next heq' =>
      rw [heq'] at hread
      exact hremove.trans hread
  · next heq => rwa [heq] at hremove

/-- A step of the layers below UDP and TCP, which leaves their blocks alone. -/
structure Beneath (s t : NetStack) : Prop where
  udp : t.udp = s.udp
  tcp : t.tcp = s.tcp
  outstanding : t.outstanding = s.outstanding

theorem Beneath.trans (h : s.Beneath t) (h' : t.Beneath t') : s.Beneath t' :=
  ⟨h'.udp.trans h.udp,h'.tcp.trans h.tcp,h'.outstanding.trans h.outstanding⟩

theorem beneath_setLink (s : NetStack) (w : NetLink) : s.Beneath (s.setLink w) := ⟨rfl,rfl,rfl⟩

theorem beneath_arpResolve (n : NetifId) (dest : IpAddr) : s.Beneath (s.arpResolve n b dest).1 := by
  unfold arpResolve
  split <;> exact ⟨rfl,rfl,rfl⟩

theorem beneath_netifOut (n : NetifId) (dest : IpAddr) : s.Beneath (s.netifOut n b dest).1 := by
  unfold netifOut
  split
  · exact beneath_setLink s _
  · split
    · exact beneath_setLink s _
    · split
      · exact beneath_arpResolve n dest
      · exact beneath_setLink s _

theorem beneath_ipv4Out (n : NetifId) (dest : IpAddr) (protocol : Byte) :
    s.Beneath (s.ipv4Out n b dest protocol).1 := by
  unfold ipv4Out
  split
  · exact beneath_setLink s _
  · split
    · exact beneath_setLink s _
    · dsimp only
      split
      · exact beneath_setLink s _
      · unfold orFree
        split
        · dsimp only
          split
          · exact ⟨rfl,rfl,rfl⟩
          · refine Beneath.trans ?_ (beneath_netifOut n dest)
            exact ⟨rfl,rfl,rfl⟩
        · exact ⟨rfl,rfl,rfl⟩

end NetStack
end QuardStarNet
