import QuardStarNet.VirtioDisk

/-! What holds in every run of the block driver: each submitted request has its own chain and its own
waiter, is marked done once, and a failure releases everybody. -/
namespace QuardStarNet
namespace Disk

open Virtq

variable {ι : Type} {capacity : BitVec 64} {layout : Layout} {s s' : State ι}
  {t : ι} {r : Request} {i : Idx}

/-- What the waiter of a caller is, by where the caller is. -/
def Pc.Fits (capacity : BitVec 64) (w : Waiter) : Pc → Prop
  | .idle => True
  | .enter r | .shortage r | .await r _ true => w = .fresh ∧ r.valid capacity = true
  | .await r _ false => r.valid capacity = true ∧ w.done = true ∧ w.marks = 1 ∧
      (w.result = 0 → w.reply = some (0,true)) ∧ (w.reply = none → w.result = -1)

/-- The request of a caller is in the hands of the device, with the head `i`. -/
structure Posted (layout : Layout) (s : State ι) (r : Request) (i j k : Idx) : Prop where
  chain : [i,j,k] ∈ s.chains
  header : (s.queue.desc i).addr = layout.request i ∧ (s.queue.desc i).len = 16
  data : (s.queue.desc j).addr = r.data ∧ (s.queue.desc j).len = r.bytes
  status : (s.queue.desc k).addr = layout.status i ∧ (s.queue.desc k).len = 1
  request : (s.info i).type = (if r.write then 1 else 0) ∧ (s.info i).sector = r.sector
  answer : (s.info i).status = 0xff ∨ (s.info i).answered = true

/-- The driver before the first failure. -/
structure Live (layout : Layout) (s : State ι) : Prop where
  inv : Inv s.queue s.chains
  three : ∀ c ∈ s.chains, c.length = 3
  submitted : ∀ c ∈ s.chains, ∀ i, c.head? = some i → s.queue.active i = true
  waited : ∀ i, s.queue.active i = true → ∃ t, (s.info i).waiter = some t
  pending : s.pending = s.chains.length
  registered : ∀ i t, (s.info i).waiter = some t ↔ ∃ r, s.pc t = .await r i true
  posted : ∀ t r i, s.pc t = .await r i true → ∃ j k, Posted layout s r i j k

/-- The driver after a failure: nobody is registered and nobody sleeps. -/
structure Dead (s : State ι) : Prop where
  unregistered : ∀ i, (s.info i).waiter = none
  awake : ∀ t, (s.pc t).asleep = false
  pending : s.pending = 0

structure Ok (capacity : BitVec 64) (layout : Layout) (s : State ι) : Prop where
  fits : ∀ t, (s.pc t).Fits capacity (s.waiter t)
  live : s.failed = false → Live layout s
  dead : s.failed = true → Dead s

theorem Ok.init : Ok capacity layout (State.init ι) where
  fits _ := trivial
  live _ := ⟨init_inv,by simp [State.init],by simp [State.init],by simp [State.init,virtqInit],rfl,
    by simp [State.init],by simp [State.init]⟩
  dead h := by simp [State.init] at h

/-- Steps that leave the requests in the device's hands as they are. -/
theorem Live.of_same (h : Live layout s) (hinv : Inv s'.queue s.chains) (hc : s'.chains = s.chains)
    (hp : s'.pending = s.pending) (hact : s'.queue.active = s.queue.active)
    (hdesc : ∀ i, s.queue.free i = false → s'.queue.desc i = s.queue.desc i)
    (hinfo : ∀ i, s'.info i = s.info i ∨
      ∃ byte, s'.info i = { s.info i with status := byte, answered := true })
    (hpc : ∀ t r i, s'.pc t = .await r i true ↔ s.pc t = .await r i true) : Live layout s' := by
  have hwaiter : ∀ i, (s'.info i).waiter = (s.info i).waiter := fun i => by
    rcases hinfo i with he | ⟨byte,he⟩ <;> rw [he]
  refine ⟨hc ▸ hinv,hc ▸ h.three,hc ▸ hact ▸ h.submitted,fun i hi => ?_,by rw [hp,hc,h.pending],
    fun i t => ?_,fun t r i hi => ?_⟩
  · rw [hwaiter i]
    exact h.waited i (hact ▸ hi)
  · rw [hwaiter i,h.registered i t]
    simp only [hpc]
  · obtain ⟨j,k,hk⟩ := h.posted t r i ((hpc t r i).1 hi)
    have hsame : ∀ x ∈ [i,j,k], s'.queue.desc x = s.queue.desc x := fun x hx =>
      hdesc x (h.inv.notFree hk.chain hx)
    refine ⟨j,k,by rw [hc]; exact hk.chain,by rw [hsame i (by simp)]; exact hk.header,
      by rw [hsame j (by simp)]; exact hk.data,by rw [hsame k (by simp)]; exact hk.status,?_,?_⟩
    · rcases hinfo i with he | ⟨byte,he⟩ <;> rw [he] <;> exact hk.request
    · rcases hinfo i with he | ⟨byte,he⟩ <;> rw [he]
      · exact hk.answer
      · exact .inr rfl

/-! A request is submitted. -/

theorem desc_fill (q : Virtqueue) {j k x : Idx} (hx : x ∉ [i,j,k]) :
    (State.fillDesc layout q r i j k).desc x = q.desc x := by
  simp only [List.mem_cons,List.not_mem_nil,or_false,not_or] at hx
  simp [State.fillDesc,Virtqueue.write,hx.1,hx.2.1,hx.2.2]

theorem desc_filled (layout : Layout) (q : Virtqueue) (r : Request) {j k : Idx} (hij : i ≠ j) (hik : i ≠ k) (hjk : j ≠ k) :
    let desc := (State.fillDesc layout q r i j k).desc
    ((desc i).addr = layout.request i ∧ (desc i).len = 16) ∧
      ((desc j).addr = r.data ∧ (desc j).len = r.bytes) ∧
      (desc k).addr = layout.status i ∧ (desc k).len = 1 := by
  simp [State.fillDesc,Virtqueue.write,hij,hik,hjk]

theorem hasNext_write (d : Desc) (flags : BitVec 16) (h : flags = d.flags ∨ flags = d.flags ||| 2#16) :
    (flags &&& 1#16 != 0#16) = d.hasNext := by
  rcases h with rfl | rfl
  · rfl
  · rw [Desc.hasNext,BitVec.and_comm,BitVec.and_or_distrib_left,BitVec.and_comm]
    simp

theorem inv_fillDesc {q : Virtqueue} {chains : List (List Idx)} (h : Inv q chains) (r : Request)
    (i j k : Idx) : Inv (State.fillDesc layout q r i j k) chains := by
  unfold State.fillDesc
  dsimp only
  apply Inv.write
  · apply Inv.write
    · apply Inv.write h
      · rfl
      · rfl
    · refine hasNext_write _ _ ?_
      split
      · exact .inl rfl
      · exact .inr rfl
    · rfl
  · exact hasNext_write _ _ (.inr rfl)
  · rfl

variable [DecidableEq ι]

/-- The chain, the registration and the submission of `block_transfer`. -/
theorem Live.submitRequest {q : Virtqueue} {j k : Idx} (h : Live layout s) (hpc : s.pc t = .enter r)
    (ha : Allocated s.queue q [] [i,j,k] s.chains) :
    Live layout { s.submitRequest layout t r q i j k with
      pc := Function.update s.pc t (.await r i true) } := by
  have hnodup : [i,j,k].Nodup := (List.nodup_flatten.1 ha.inv.nodup).1 _ (by simp)
  have hold : ∀ c ∈ s.chains, ∀ x ∈ c, x ∉ [i,j,k] := fun c hc x hx hm => by
    have := ha.wasFree x hm
    simp [h.inv.notFree hc hx] at this
  have hfill : Inv (State.fillDesc layout q r i j k) ([i,j,k] :: s.chains) := inv_fillDesc ha.inv r i j k
  have hfree : (State.fillDesc layout q r i j k).free i = false := hfill.notFree (c := [i,j,k]) (by simp) (by simp)
  have hactive : (State.fillDesc layout q r i j k).active = s.queue.active := ha.kept.active
  have hidle : s.queue.active i = false := by
    by_contra hact
    have := h.inv.active_notFree (i := i) (by simpa using hact)
    simp [ha.wasFree i (by simp)] at this
  have hsubmit := submit_name hfree (hactive ▸ hidle)
  have hdesc : ((State.fillDesc layout q r i j k).submit (name i)).desc =
      (State.fillDesc layout q r i j k).desc := by rw [hsubmit]
  have hold_desc : ∀ c ∈ s.chains, ∀ x ∈ c,
      ((State.fillDesc layout q r i j k).submit (name i)).desc x = s.queue.desc x := fun c hc x hx => by
    rw [hdesc,desc_fill q (hold c hc x hx),ha.desc x (hold c hc x hx)]
  have hunreg : ∀ x, (s.info x).waiter ≠ some t := fun x hx => by
    obtain ⟨r',hr'⟩ := (h.registered x t).1 hx
    simp [hpc] at hr'
  simp only [List.nodup_cons,List.mem_cons,List.not_mem_nil,or_false,not_or] at hnodup
  refine ⟨Inv.submit hfill (c := [i,j,k]) (by simp [State.submitRequest]) (by simp),?_,?_,?_,?_,?_,?_⟩
  · intro c hc
    rcases List.mem_cons.1 hc with rfl | hc
    · rfl
    · exact h.three c hc
  · intro c hc x hx
    change ((State.fillDesc layout q r i j k).submit (name i)).active x = true
    rw [hsubmit,hactive]
    by_cases hxi : x = i
    · simp [hxi]
    · rcases List.mem_cons.1 hc with rfl | hc
      · simp [Ne.symm hxi] at hx
      · simpa [hxi] using h.submitted c hc x hx
  · intro x hx
    by_cases hxi : x = i
    · exact ⟨t,by simp [State.submitRequest,hxi]⟩
    · simp only [State.submitRequest,hsubmit,hactive,ne_eq,hxi,not_false_eq_true,
        Function.update_of_ne] at hx ⊢
      exact h.waited x hx
  · simp [State.submitRequest,h.pending]
  · intro x u
    by_cases hxi : x = i
    · subst hxi
      by_cases hut : u = t
      · simp [State.submitRequest,hut]
      · simp only [State.submitRequest,Function.update_self,Option.some.injEq,ne_eq,hut,
          not_false_eq_true,Function.update_of_ne,Ne.symm hut,false_iff]
        rintro ⟨r',hr'⟩
        obtain ⟨j',k',hp⟩ := h.posted u r' x hr'
        exact hold _ hp.chain x (by simp) (by simp)
    · by_cases hut : u = t
      · subst hut
        simp [State.submitRequest,hxi,hunreg x,Ne.symm hxi]
      · simpa [State.submitRequest,hxi,hut] using h.registered x u
  · intro u r' x hu
    by_cases hut : u = t
    · subst hut
      simp only [Function.update_self,Pc.await.injEq,and_true] at hu
      obtain ⟨rfl,rfl⟩ := hu
      have hfilled := desc_filled layout q r hnodup.1.1 hnodup.1.2 hnodup.2.1
      refine ⟨j,k,by simp [State.submitRequest],?_,?_,?_,by simp [State.submitRequest],
        by simp [State.submitRequest]⟩
      · exact hdesc ▸ hfilled.1
      · exact hdesc ▸ hfilled.2.1
      · exact hdesc ▸ hfilled.2.2
    · simp only [ne_eq,hut,not_false_eq_true,Function.update_of_ne] at hu
      obtain ⟨j',k',hp⟩ := h.posted u r' x hu
      have hxi : x ≠ i := fun he => hold _ hp.chain x (by simp) (by simp [he])
      refine ⟨j',k',by simp [State.submitRequest,hp.chain],?_,?_,?_,?_,?_⟩
      · simpa [State.submitRequest,hold_desc _ hp.chain x (by simp)] using hp.header
      · simpa [State.submitRequest,hold_desc _ hp.chain j' (by simp)] using hp.data
      · simpa [State.submitRequest,hold_desc _ hp.chain k' (by simp)] using hp.status
      · simpa [State.submitRequest,hxi] using hp.request
      · simpa [State.submitRequest,hxi] using hp.answer

/-! A request completes. -/

theorem Live.completed {q : Virtqueue} (waiter : ι → Waiter) (h : Live layout s)
    (hpop : s.queue.active i = true) (hw : (s.info i).waiter = some t)
    (hq : Inv q s.chains) (hqa : q.active = Function.update s.queue.active i false)
    (hqd : q.desc = s.queue.desc) :
    (q.freeChain (name i)).2 = 3 ∧
    Live layout { s with
      queue := (q.freeChain (name i)).1
      info := Function.update s.info i { s.info i with waiter := none }
      pending := s.pending-1
      waiter := waiter
      pc := fun u => (Function.update s.pc t (s.pc t).wakeCompletion u).wakeDescriptors
      chains := dropChain s.chains i } := by
  obtain ⟨r,hr⟩ := (h.registered i t).1 hw
  obtain ⟨j,k,hp⟩ := h.posted t r i hr
  have hidle : q.active i = false := by simp [hqa]
  have hfree := freeChain_head hq hp.chain (by simp) hidle
  have hperm := hq.dropChain_perm hp.chain (i := i) (by simp)
  have hinv := (hq.perm hperm).release fun x => hq.idle_chain hp.chain (i := i) (by simp) hidle
  have hrest : ∀ c ∈ dropChain s.chains i, c ∈ s.chains := fun c hc => hperm.mem_iff.2 (by simp [hc])
  have hother : ∀ c ∈ dropChain s.chains i, ∀ x ∈ c, x ∉ [i,j,k] := fun c hc x hx hm => by
    have hn := (hq.perm hperm).nodup
    rw [List.flatten_cons,List.nodup_append] at hn
    exact hn.2.2 x hm x (List.mem_flatten.2 ⟨c,hc,hx⟩) rfl
  have hpc : ∀ u r' x, (Function.update s.pc t (s.pc t).wakeCompletion u).wakeDescriptors =
      .await r' x true ↔ u ≠ t ∧ s.pc u = .await r' x true := fun u r' x => by
    by_cases hu : u = t
    · subst hu
      simp [hr,Pc.wakeCompletion,Pc.wakeDescriptors]
    · simp only [ne_eq,hu,not_false_eq_true,Function.update_of_ne,true_and]
      cases s.pc u <;> simp [Pc.wakeDescriptors]
  refine ⟨by rw [hfree]; rfl,?_⟩
  have hactive : ∀ x, ([i,j,k].foldl Virtqueue.releaseDesc q).active x = true ↔
      x ≠ i ∧ s.queue.active x = true := fun x => by
    rw [(Kept.release [i,j,k] q).active,hqa]
    by_cases hx : x = i <;> simp [hx]
  have hdesc : ∀ c ∈ dropChain s.chains i, ∀ x ∈ c,
      ([i,j,k].foldl Virtqueue.releaseDesc q).desc x = s.queue.desc x := fun c hc x hx => by
    rw [release_all,← hqd]
    exact if_neg (hother c hc x hx)
  have honly : ∀ u r' , s.pc u = .await r' i true → u = t := fun u r' hu => by
    have := (h.registered i u).2 ⟨r',hu⟩
    rw [hw] at this
    exact (Option.some.inj this).symm
  rw [hfree]
  refine ⟨hinv,fun c hc => h.three c (hrest c hc),fun c hc x hx => ?_,fun x hx => ?_,?_,fun x u => ?_,
    fun u r' x hu => ?_⟩
  · refine (hactive x).2 ⟨fun hxi => ?_,h.submitted c (hrest c hc) x hx⟩
    exact hother c hc x (List.mem_of_head? hx) (by simp [hxi])
  · obtain ⟨hxi,hx⟩ := (hactive x).1 hx
    simpa [hxi] using h.waited x hx
  · have := hperm.length_eq
    simp only [List.length_cons] at this
    simp only [h.pending]
    omega
  · simp only [hpc]
    by_cases hxi : x = i
    · subst hxi
      simpa using fun hne r' hu => hne (honly u r' hu)
    · simp only [ne_eq,hxi,not_false_eq_true,Function.update_of_ne,h.registered x u]
      refine exists_congr fun r' => ⟨fun hu => ⟨fun hut => hxi ?_,hu⟩,fun hu => hu.2⟩
      subst hut
      rw [hr] at hu
      exact (Pc.await.inj hu).2.1.symm
  · obtain ⟨hut,hu⟩ := (hpc u r' x).1 hu
    obtain ⟨j',k',hp'⟩ := h.posted u r' x hu
    have hxi : x ≠ i := fun hxi => hut (honly u r' (hxi ▸ hu))
    have hc : [x,j',k'] ∈ dropChain s.chains i := by
      rcases List.mem_cons.1 (hperm.mem_iff.1 hp'.chain) with he | hc
      · exact absurd (List.cons.inj he).1 hxi
      · exact hc
    refine ⟨j',k',hc,?_,?_,?_,?_,?_⟩
    · dsimp only
      rw [hdesc _ hc x (by simp)]
      exact hp'.header
    · dsimp only
      rw [hdesc _ hc j' (by simp)]
      exact hp'.data
    · dsimp only
      rw [hdesc _ hc k' (by simp)]
      exact hp'.status
    · simpa [hxi] using hp'.request
    · simpa [hxi] using hp'.answer

/-! The driver fails. -/

/-- `block_fail_locked` when every waiter is registered once. -/
theorem failOne_all (l : List Idx) (hn : l.Nodup) (s : State ι)
    (hone : ∀ i j t, (s.info i).waiter = some t → (s.info j).waiter = some t → i = j) :
    let hit := fun t => l.any fun i => (s.info i).waiter == some t
    l.foldl State.failOne s = { s with
      info := fun i => if i ∈ l then { s.info i with waiter := none } else s.info i
      waiter := fun t => if hit t then (s.waiter t).mark (-1) else s.waiter t
      pc := fun t => if hit t then (s.pc t).wakeCompletion else s.pc t } := by
  induction l generalizing s with
  | nil => simp
  | cons i l ih =>
    obtain ⟨hi,hn⟩ := List.nodup_cons.1 hn
    intro hit
    rw [List.foldl_cons]
    cases hw : (s.info i).waiter with
    | none =>
      have hsame : s.failOne i = s := by rw [State.failOne,hw]
      rw [hsame,ih hn s hone]
      simp only [hit,State.mk.injEq,true_and,and_true,List.any_cons,hw]
      refine ⟨?_,?_,?_⟩
      · funext x
        by_cases hx : x = i
        · subst hx
          simp [hi,← hw]
        · simp [hx]
      · funext t
        simp
      · funext t
        simp
    | some t =>
      have hfirst : s.failOne i = { s with
          waiter := Function.update s.waiter t ((s.waiter t).mark (-1))
          info := Function.update s.info i { s.info i with waiter := none }
          pc := Function.update s.pc t (s.pc t).wakeCompletion } := by rw [State.failOne,hw]
      have hinfo : ∀ x ∈ l, (Function.update s.info i { s.info i with waiter := none } x) = s.info x :=
        fun x hx => Function.update_of_ne (show x ≠ i from fun he => hi (he ▸ hx)) ..
      have hany : ∀ u, (l.any fun x => (Function.update s.info i { s.info i with waiter := none } x).waiter ==
          some u) = l.any fun x => (s.info x).waiter == some u := fun u => by
        rw [Bool.eq_iff_iff,List.any_eq_true,List.any_eq_true]
        exact exists_congr fun x => and_congr_right fun hx => by rw [hinfo x hx]
      have hnot : (l.any fun x => (s.info x).waiter == some t) = false := by
        simpa using fun x hx hxt => hi (hone i x t hw hxt ▸ hx)
      rw [hfirst,ih hn]
      · simp only [hit,State.mk.injEq,true_and,and_true,List.any_cons,hw,hany]
        refine ⟨?_,?_,?_⟩
        · funext x
          by_cases hx : x = i
          · subst hx
            simp [hi]
          · simp [hx]
        · funext u
          by_cases hu : u = t
          · subst hu
            simp [hnot]
          · simp [hu,Ne.symm hu]
        · funext u
          by_cases hu : u = t
          · subst hu
            simp [hnot]
          · simp [hu,Ne.symm hu]
      · intro x y u hx hy
        by_cases hxi : x = i
        · simp [hxi] at hx
        · by_cases hyi : y = i
          · simp [hyi] at hy
          · exact hone x y u (by simpa [hxi] using hx) (by simpa [hyi] using hy)

theorem Pc.Fits.wakeDescriptors {w : Waiter} {p : Pc} (h : p.Fits capacity w) :
    p.wakeDescriptors.Fits capacity w := by
  cases p <;> exact h

omit [DecidableEq ι] in
/-- Waiters sleep where they are registered, before a failure and after it. -/
theorem Ok.registered (h : Ok capacity layout s) (i : Idx) (t : ι) :
    (s.info i).waiter = some t ↔ ∃ r, s.pc t = .await r i true := by
  cases hf : s.failed with
  | false => exact (h.live hf).registered i t
  | true =>
    have hd := h.dead hf
    simp only [hd.unregistered i,reduceCtorEq,false_iff]
    rintro ⟨r,hr⟩
    have := hd.awake t
    simp [hr,Pc.asleep] at this

/-- A failure marks every registered waiter done and wakes everybody. -/
theorem Ok.fail (h : Ok capacity layout s) (q : Virtqueue) :
    Ok capacity layout { { s with queue := q }.blockFailLocked with inIntr := false } := by
  have hone : ∀ i j t, (s.info i).waiter = some t → (s.info j).waiter = some t → i = j := by
    intro i j t hi hj
    obtain ⟨r,hr⟩ := (h.registered i t).1 hi
    obtain ⟨r',hr'⟩ := (h.registered j t).1 hj
    rw [hr] at hr'
    exact (Pc.await.inj hr').2.1
  have hall := failOne_all (List.finRange 8) (List.nodup_finRange 8)
    { s with queue := q, failed := true } hone
  have hhit : ∀ t, ((List.finRange 8).any fun i => (s.info i).waiter == some t) = true ↔
      ∃ i r, s.pc t = .await r i true := fun t => by
    simp [h.registered]
  unfold State.blockFailLocked
  dsimp only
  rw [hall]
  refine ⟨fun t => ?_,by simp,fun _ => ⟨by simp,fun t => ?_,rfl⟩⟩
  · have hfit := h.fits t
    dsimp only
    by_cases hsleep : ∃ i r, s.pc t = .await r i true
    · rw [if_pos ((hhit t).2 hsleep),if_pos ((hhit t).2 hsleep)]
      obtain ⟨i,r,hr⟩ := hsleep
      rw [hr] at hfit ⊢
      obtain ⟨hw,hv⟩ := hfit
      simp [hw,Pc.wakeCompletion,Pc.wakeDescriptors,Pc.Fits,Waiter.mark,Waiter.fresh,hv]
    · rw [if_neg (mt (hhit t).1 hsleep),if_neg (mt (hhit t).1 hsleep)]
      exact hfit.wakeDescriptors
  · dsimp only
    by_cases hsleep : ∃ i r, s.pc t = .await r i true
    · rw [if_pos ((hhit t).2 hsleep)]
      obtain ⟨i,r,hr⟩ := hsleep
      simp [hr,Pc.wakeCompletion,Pc.wakeDescriptors,Pc.asleep]
    · rw [if_neg (mt (hhit t).1 hsleep)]
      cases hp : s.pc t with
      | await r i asleep =>
        cases asleep with
        | true => exact absurd ⟨i,r,hp⟩ hsleep
        | false => rfl
      | _ => rfl

/-! Every step. -/

theorem await_update {pc : ι → Pc} {p : Pc} (hold : ∀ r i, pc t ≠ .await r i true)
    (hnew : ∀ r i, p ≠ .await r i true) (u : ι) (r : Request) (i : Idx) :
    Function.update pc t p u = .await r i true ↔ pc u = .await r i true := by
  by_cases hu : u = t
  · subst hu
    simp [hold,hnew]
  · simp [hu]

/-- One caller moves, and neither before nor after does it sleep for a request. -/
theorem Ok.move {w : Waiter} {p : Pc} (h : Ok capacity layout s) (hfit : p.Fits capacity w)
    (hold : ∀ r i, s.pc t ≠ .await r i true) (hnew : p.asleep = false) :
    Ok capacity layout { s with pc := Function.update s.pc t p, waiter := Function.update s.waiter t w } := by
  have hnew' : ∀ r i, p ≠ .await r i true := fun r i he => by simp [he,Pc.asleep] at hnew
  refine ⟨fun u => ?_,fun hf => ?_,fun hf => ?_⟩
  · by_cases hu : u = t
    · subst hu
      simpa using hfit
    · simpa [hu] using h.fits u
  · exact (h.live hf).of_same (h.live hf).inv rfl rfl rfl (fun _ _ => rfl) (fun _ => .inl rfl)
      (await_update hold hnew')
  · refine ⟨(h.dead hf).unregistered,fun u => ?_,(h.dead hf).pending⟩
    by_cases hu : u = t
    · subst hu
      simpa using hnew
    · simpa [hu] using (h.dead hf).awake u

theorem Ok.leave (h : Ok capacity layout s) (hold : ∀ r i, s.pc t ≠ .await r i true) :
    Ok capacity layout { s with pc := Function.update s.pc t .idle } := by
  have := h.move (t := t) (w := s.waiter t) (p := .idle) trivial hold rfl
  rwa [Function.update_eq_self] at this

theorem Ok.enter (h : Ok capacity layout s) (hpc : s.pc t = .enter r) :
    Ok capacity layout (s.enter layout t r).1 := by
  have hfit := h.fits t
  rw [hpc] at hfit
  obtain ⟨hw,hv⟩ := hfit
  have hold : ∀ r i, s.pc t ≠ .await r i true := by simp [hpc]
  unfold State.enter
  split
  next => exact h.leave hold
  next hf =>
  have hl := h.live (by simpa using hf)
  rcases allocChain_cases hl.inv 3 with ⟨q,l,he,hlen,-,ha⟩ | ⟨q,he,hinv,hk,hfree,-,hdesc,-⟩
  · obtain ⟨i,j,k,rfl⟩ := List.length_eq_three.1 (by exact_mod_cast hlen)
    rw [he]
    have hdone : ((s.submitRequest layout t r q i j k).waiter t).done = false := by
      simp [State.submitRequest,hw,Waiter.fresh]
    simp only [State.awaitDone,hdone,Bool.false_eq_true,if_false]
    refine ⟨fun u => ?_,fun _ => hl.submitRequest hpc ha,fun hf' => absurd hf' hf⟩
    by_cases hu : u = t
    · subst hu
      simpa [State.submitRequest,Pc.Fits] using ⟨hw,hv⟩
    · simpa [State.submitRequest,hu] using h.fits u
  · rw [he]
    refine ⟨fun u => ?_,fun _ => ?_,fun hf' => absurd hf' hf⟩
    · by_cases hu : u = t
      · subst hu
        simpa [Pc.Fits] using ⟨hw,hv⟩
      · simpa [hu] using h.fits u
    · exact hl.of_same hinv rfl rfl hk.active hdesc (fun _ => .inl rfl) (await_update hold (by simp))

omit [DecidableEq ι] in
theorem Ok.withIntr (h : Ok capacity layout s) (b : Bool) : Ok capacity layout { s with inIntr := b } :=
  ⟨h.fits,fun hf => (h.live hf).of_same (h.live hf).inv rfl rfl rfl (fun _ _ => rfl)
    (fun _ => .inl rfl) fun _ _ _ => .rfl,fun hf => ⟨(h.dead hf).1,(h.dead hf).2,(h.dead hf).3⟩⟩

theorem Ok.intrPop (h : Ok capacity layout s) : Ok capacity layout s.intrPop := by
  unfold State.intrPop
  rcases popUsedLen_cases s.queue with he | he | ⟨i,hi,-,-,he⟩
  · rw [he]
    exact h.withIntr false
  · rw [he]
    exact h.fail _
  · have hq : Inv s.queue s.chains → Inv s.queue.popUsedLen.1 s.chains := Inv.popUsedLen
    rw [he] at hq ⊢
    dsimp only
    cases hw : (s.info i).waiter with
    | none => exact h.fail _
    | some t =>
      have hf : s.failed = false := by
        by_contra hf
        simp [(h.dead (by simpa using hf)).unregistered i] at hw
      have hl := h.live hf
      obtain ⟨hthree,hlive⟩ := Live.completed (Function.update s.waiter t { (s.waiter t).mark
        (if (s.info i).status = 0 then 0 else -1) with
          reply := some ((s.info i).status,(s.info i).answered) }) hl hi hw (hq hl.inv) rfl rfl
      dsimp only
      rw [if_neg (by rw [hthree]; simp)]
      refine ⟨fun u => ?_,fun _ => hlive,fun hf' => absurd hf' (by simp [hf])⟩
      dsimp only
      by_cases hu : u = t
      · subst hu
        obtain ⟨r,hr⟩ := (hl.registered i u).1 hw
        obtain ⟨j,k,hp⟩ := hl.posted u r i hr
        have hfit := h.fits u
        rw [hr] at hfit
        obtain ⟨hfresh,hv⟩ := hfit
        have hanswer := hp.answer
        simp only [Function.update_self,hr,Pc.wakeCompletion,Pc.wakeDescriptors,Pc.Fits,Waiter.mark,hfresh]
        refine ⟨hv,trivial,rfl,fun hres => ?_,by simp⟩
        have hzero : (s.info i).status = 0 := by
          by_contra hne
          rw [if_neg hne] at hres
          simp at hres
        rw [hzero] at hanswer ⊢
        rcases hanswer with hbad | hyes
        · simp at hbad
        · rw [hyes]
      · simpa [hu] using (h.fits u).wakeDescriptors

theorem Ok.act (h : Ok capacity layout s) (e : Event ι) : Ok capacity layout (s.act capacity layout e).1 := by
  cases e with
  | call t r =>
    dsimp only [State.act]
    split
    next hpc =>
      split
      next hv => exact h.move (w := .fresh) (p := .enter r) ⟨rfl,hv⟩ (by simp [hpc]) rfl
      next => exact h
    next => exact h
  | enter t =>
    dsimp only [State.act]
    split
    next hpc _ => exact h.enter hpc
    next => exact h
  | resume t =>
    dsimp only [State.act]
    split
    next r head hpc _ =>
      have hfit := h.fits t
      rw [hpc] at hfit
      unfold State.awaitDone
      rw [if_pos hfit.2.1]
      exact h.leave (by simp [hpc])
    next => exact h
  | intr =>
    dsimp only [State.act]
    split
    next => exact h
    next => exact h.withIntr true
  | intrPop =>
    dsimp only [State.act]
    split
    next => exact h.intrPop
    next => exact h
  | deviceRing idx ring =>
    refine ⟨h.fits,fun hf => ?_,fun hf => ⟨(h.dead hf).1,(h.dead hf).2,(h.dead hf).3⟩⟩
    exact (h.live hf).of_same ((h.live hf).inv.device idx ring) rfl rfl rfl (fun _ _ => rfl)
      (fun _ => .inl rfl) fun _ _ _ => .rfl
  | deviceStatus i byte =>
    refine ⟨h.fits,fun hf => ?_,fun hf => ⟨fun j => ?_,(h.dead hf).2,(h.dead hf).3⟩⟩
    · refine (h.live hf).of_same (h.live hf).inv rfl rfl rfl (fun _ _ => rfl) (fun j => ?_)
        fun _ _ _ => .rfl
      by_cases hj : j = i
      · subst hj
        exact .inr ⟨byte,by simp [State.act]⟩
      · exact .inl (by simp [State.act,hj])
    · by_cases hj : j = i
      · subst hj
        simpa [State.act] using (h.dead hf).unregistered j
      · simpa [State.act,hj] using (h.dead hf).unregistered j

theorem Ok.run (h : Ok capacity layout s) (events : List (Event ι)) :
    Ok capacity layout (s.run capacity layout events) := by
  induction events generalizing s with
  | nil => exact h
  | cons e events ih => exact ih (h.act e)

/-! What callers see. -/

theorem valid_bounds (hv : r.valid capacity = true) :
    r.sector.toNat+r.count.toNat ≤ capacity.toNat ∧ r.bytes.toNat = 512*r.count.toNat := by
  unfold Request.valid at hv
  split at hv
  next => simp at hv
  next hcount =>
  split at hv
  next => simp at hv
  next hrange =>
    simp only [not_or,not_lt] at hcount
    simp only [not_or,BitVec.not_le,BitVec.not_lt] at hrange
    obtain ⟨hsector,hroom⟩ := hrange
    rw [BitVec.lt_def] at hsector
    rw [BitVec.le_def,BitVec.toNat_sub_of_le (by rw [BitVec.le_def]; omega),
      BitVec.toNat_setWidth_of_le (by omega)] at hroom
    refine ⟨by omega,?_⟩
    have hmul : (r.count*512#32).toNat = r.count.toNat*512 % 2^32 := BitVec.toNat_mul ..
    rw [Request.bytes,hmul,Nat.mod_eq_of_lt (by omega)]
    omega

theorem failOne_failed (l : List Idx) (s : State ι) : (l.foldl State.failOne s).failed = s.failed := by
  induction l generalizing s with
  | nil => rfl
  | cons i l ih =>
    rw [List.foldl_cons,ih]
    unfold State.failOne
    split <;> rfl

theorem blockFailLocked_failed (s : State ι) : s.blockFailLocked.failed = true :=
  failOne_failed (List.finRange 8) _

theorem enter_failed (s : State ι) (t : ι) (r : Request) :
    (s.enter layout t r).1.failed = s.failed := by
  unfold State.enter
  split
  next => rfl
  next =>
  split
  next =>
    unfold State.awaitDone
    split <;> rfl
  next => rfl

theorem Ok.intrPop_failed (h : Ok capacity layout s) :
    s.intrPop.failed = true ↔ s.failed = true ∨ s.queue.popUsedLen.2 = .bad := by
  unfold State.intrPop
  rcases popUsedLen_cases s.queue with he | he | ⟨i,hi,-,-,he⟩
  · simp [he]
  · simp [he,blockFailLocked_failed]
  · rw [he]
    dsimp only
    cases hw : (s.info i).waiter with
    | none =>
      have hf : s.failed = true := by
        by_contra hf
        obtain ⟨t,ht⟩ := (h.live (by simpa using hf)).waited i hi
        simp [hw] at ht
      simp [hf,blockFailLocked_failed]
    | some t =>
      have hf : s.failed = false := by
        by_contra hf
        simp [(h.dead (by simpa using hf)).unregistered i] at hw
      have hl := h.live hf
      have hq : Inv s.queue.popUsedLen.1 s.chains := hl.inv.popUsedLen
      rw [he] at hq
      obtain ⟨hthree,-⟩ := Live.completed s.waiter hl hi hw hq rfl rfl
      dsimp only
      rw [if_neg (by rw [hthree]; simp)]
      simp [hf]

/-- The driver fails at an invalid used element and for no other reason. -/
theorem Ok.act_failed (h : Ok capacity layout s) (e : Event ι) :
    (s.act capacity layout e).1.failed = true ↔
      s.failed = true ∨ e = .intrPop ∧ s.inIntr = true ∧ s.queue.popUsedLen.2 = .bad := by
  cases e with
  | call t r =>
    dsimp only [State.act]
    split
    next => split <;> simp
    next => simp
  | enter t =>
    dsimp only [State.act]
    split
    next => simp [enter_failed]
    next => simp
  | resume t =>
    dsimp only [State.act]
    split
    next =>
      unfold State.awaitDone
      split <;> simp
    next => simp
  | intr =>
    dsimp only [State.act]
    split <;> simp
  | intrPop =>
    dsimp only [State.act]
    split
    next hin => simp [h.intrPop_failed,hin]
    next hin => simp [hin]
  | deviceRing idx ring => simp [State.act]
  | deviceStatus i byte => simp [State.act]

omit [DecidableEq ι] in
theorem Live.card_waiters (h : Live layout s) :
    s.chains.length = (Finset.univ.filter fun i => (s.info i).waiter ≠ none).card := by
  have hn : (s.chains.filterMap List.head?).Nodup := h.inv.nodup.sublist (heads_sublist s.chains)
  have hset : (Finset.univ.filter fun i => (s.info i).waiter ≠ none) =
      (s.chains.filterMap List.head?).toFinset := by
    ext i
    simp only [Finset.mem_filter,Finset.mem_univ,true_and,List.mem_toFinset,List.mem_filterMap]
    constructor
    · intro hi
      obtain ⟨t,ht⟩ := Option.ne_none_iff_exists'.1 hi
      obtain ⟨r,hr⟩ := (h.registered i t).1 ht
      obtain ⟨j,k,hp⟩ := h.posted t r i hr
      exact ⟨_,hp.chain,rfl⟩
    · rintro ⟨c,hc,hi⟩
      obtain ⟨t,ht⟩ := h.waited i (h.submitted c hc i hi)
      simp [ht]
  have hlen : (s.chains.filterMap List.head?).length = s.chains.length := by
    rw [List.length_filterMap_eq_countP,List.countP_eq_length]
    intro c hc
    have := h.three c hc
    cases c <;> simp_all
  rw [hset,List.toFinset_card_of_nodup hn,hlen]

omit [DecidableEq ι] in
theorem Live.count (h : Live layout s) : (s.queue.freeCount.toNat : ℤ)+3*s.pending = 8 := by
  have hlen : s.chains.flatten.length = 3*s.chains.length := by
    rw [List.length_flatten,List.map_congr_left h.three]
    simp [Nat.mul_comm]
  have := h.inv.count
  rw [h.pending]
  omega

/-- In every state of every run of the driver, with any number of callers and any device. -/
theorem requests_complete_once (capacity : BitVec 64) (layout : Layout) (events : List (Event ι)) :
    let s := (State.init ι).run capacity layout events
    (s.failed = false →
      (s.queue.freeCount.toNat : ℤ)+3*s.pending = 8 ∧
      s.pending = (Finset.univ.filter fun i => (s.info i).waiter ≠ none).card ∧
      (∀ t r head, s.pc t = .await r head true →
        s.queue.active head = true ∧ ∀ i, (s.info i).waiter = some t ↔ i = head) ∧
      ∀ i t, (s.info i).waiter = some t → ∃ r j k, s.pc t = .await r i true ∧ Posted layout s r i j k ∧
        r.sector.toNat+r.count.toNat ≤ capacity.toNat ∧ r.bytes.toNat = 512*r.count.toNat) ∧
    (∀ t r head asleep, s.pc t = .await r head asleep →
      asleep = !(s.waiter t).done ∧ (s.waiter t).marks = (s.waiter t).done.toNat) ∧
    (∀ t result, (s.act capacity layout (.resume t)).2 = some result →
      (s.waiter t).marks = 1 ∧ (result = 0 → (s.waiter t).reply = some (0,true))) ∧
    (∀ t result, (s.act capacity layout (.enter t)).2 = some result → s.failed = true ∧ result = -1) ∧
    (∀ e, (s.act capacity layout e).1.failed = true ↔
      s.failed = true ∨ e = .intrPop ∧ s.inIntr = true ∧ s.queue.popUsedLen.2 = .bad) ∧
    (s.failed = true → (∀ t, (s.pc t).asleep = false) ∧
      (∀ t r, s.pc t = .enter r → s.inIntr = false →
        (s.act capacity layout (.enter t)).2 = some (-1)) ∧
      ∀ t r head asleep, s.pc t = .await r head asleep → (s.waiter t).done = true ∧
        ((s.waiter t).reply = none → (s.waiter t).result = -1)) := by
  intro s
  have h : Ok capacity layout s := Ok.init.run events
  refine ⟨fun hf => ?_,fun t r head asleep hpc => ?_,fun t result hres => ?_,fun t result hres => ?_,
    h.act_failed,fun hf => ⟨(h.dead hf).awake,fun t r hpc hin => ?_,fun t r head asleep hpc => ?_⟩⟩
  · have hl := h.live hf
    refine ⟨hl.count,by rw [hl.pending,hl.card_waiters],fun t r head hpc => ⟨?_,fun i => ?_⟩,
      fun i t hw => ?_⟩
    · obtain ⟨j,k,hp⟩ := hl.posted t r head hpc
      exact hl.submitted _ hp.chain head (by simp)
    · rw [hl.registered i t]
      simp [hpc,eq_comm]
    · obtain ⟨r,hr⟩ := (hl.registered i t).1 hw
      obtain ⟨j,k,hp⟩ := hl.posted t r i hr
      have hfit := h.fits t
      rw [hr] at hfit
      exact ⟨r,j,k,hr,hp,valid_bounds hfit.2⟩
  · have hfit := h.fits t
    rw [hpc] at hfit
    cases asleep with
    | true => simp [hfit.1,Waiter.fresh]
    | false => simp [hfit.2.1,hfit.2.2.1]
  · dsimp only [State.act] at hres
    split at hres
    next r head hpc _ =>
      have hfit := h.fits t
      rw [hpc] at hfit
      obtain ⟨-,hdone,hmarks,hreply,-⟩ := hfit
      simp only [State.awaitDone,hdone,if_true,Option.some.injEq] at hres
      exact ⟨hmarks,fun h0 => hreply (hres.trans h0)⟩
    next => simp at hres
  · dsimp only [State.act] at hres
    split at hres
    next r hpc _ =>
      have hfit := h.fits t
      rw [hpc] at hfit
      unfold State.enter at hres
      split at hres
      next hf => exact ⟨hf,by simpa using hres.symm⟩
      next =>
      split at hres
      next => simp [State.awaitDone,State.submitRequest,hfit.1,Waiter.fresh] at hres
      next => simp at hres
    next => simp at hres
  · simp [State.act,hpc,hin,State.enter,hf]
  · have hfit := h.fits t
    rw [hpc] at hfit
    cases asleep with
    | true =>
      have := (h.dead hf).awake t
      simp [hpc,Pc.asleep] at this
    | false => exact ⟨hfit.2.1,hfit.2.2.2.2⟩

/-- The device may write the used element before the driver submits the head that it names: a head is
known in advance. The call returns 0 although nothing is put in the ring after its submission. -/
theorem reply_before_submission :
    let layout : Layout := ⟨fun _ => 0,fun _ => 0⟩
    let s := (State.init Unit).run 8 layout [.deviceRing 1 fun _ => ⟨0,0⟩,.call () ⟨1,0,1,false⟩,.enter (),
      .deviceStatus 0 0,.intr,.intrPop,.intrPop]
    (s.act 8 layout (.resume ())).2 = some 0 := by
  decide +kernel

end Disk
end QuardStarNet
