import Neonet.Files.Receive

/-!
# Resuming a transfer

As long as a chunk is missing, what the receiver keeps on the tree is what the abstract receiver
makes of the chunks that verified, and nothing else the peers send matters.

* `Receiver.Sound` : the abstract receiver's invariant.
* `OpenTransfer` : a run of calls under one identifier that does not complete and in which the
  system refuses nothing.
* `holds_of_openTransfer` : **the tree refines the abstract receiver.**
* `resume_spec` : the persisted indices are those of the valid chunks, each once, the cached data
  hash to what the manifest says, the missing indices are the others in increasing order, and a
  rejected chunk changes nothing; so two runs with the same valid chunks leave the same receiver.
-/

namespace Neonet

open FileTree

variable {K : Primitives} {C : FileCodecs} {home : Home} {id : String} {M : FileManifest}
  {t t' : Tree} {r : Receiver} {c : Chunk} {cs : List Chunk} {calls calls' : List Call}

/-! ### The abstract receiver -/

namespace Receiver

/-- Each verified index once, with data, and all data hash to what the manifest says. -/
structure Sound (K : Primitives) (M : FileManifest) (r : Receiver) : Prop where
  nodup : r.verified.Nodup
  held : ∀ i ∈ r.verified, ∃ b, r.cache i = some b
  hash : ∀ i b, r.cache i = some b → M.chunks[i.toNat]? = some (K.hash b)

theorem sound_empty : empty.Sound K M :=
  ⟨List.nodup_nil, fun _ hi => absurd hi List.not_mem_nil, fun _ _ h => by cases h⟩

theorem cache_keep_of_ne {i : UInt32} (h : i ≠ c.index) : (r.keep c).cache i = r.cache i :=
  Function.update_of_ne h ..

theorem cache_keep_self : (r.keep c).cache c.index = some c.data := Function.update_self ..

theorem Sound.keep (h : r.Sound K M) (hv : verifyChunk K M c = .ok ()) : (r.keep c).Sound K M := by
  obtain ⟨hindex, hdata⟩ := verifyChunk_ok.1 hv
  refine ⟨h.nodup, fun i hi => ?_, fun i b hb => ?_⟩
  · by_cases hic : i = c.index
    · subst hic; exact ⟨_, cache_keep_self⟩
    · rw [cache_keep_of_ne hic]; exact h.held i hi
  · by_cases hic : i = c.index
    · subst hic
      rw [cache_keep_self, Option.some.injEq] at hb
      rw [← hb, hdata, hindex]
    · rw [cache_keep_of_ne hic] at hb; exact h.hash i b hb

theorem mem_receive {i : UInt32} :
    i ∈ (r.receive c).verified ↔ i ∈ r.verified ∨ i = c.index := by
  simp only [receive]
  split
  · rename_i h
    exact ⟨.inl, fun hi => hi.elim id fun he => he ▸ h⟩
  · simp

theorem Sound.receive (h : r.Sound K M) (hv : verifyChunk K M c = .ok ()) :
    (r.receive c).Sound K M := by
  have hk := h.keep hv
  refine ⟨?_, fun i hi => ?_, hk.hash⟩
  · simp only [Receiver.receive]
    split
    · exact h.nodup
    · rename_i hc
      exact List.nodup_append.2 ⟨h.nodup, List.nodup_singleton _, fun a ha b hb hab => by
        rw [List.mem_singleton] at hb
        exact hc (hb ▸ hab ▸ ha)⟩
  · rcases mem_receive.1 hi with hi | rfl
    · exact hk.held i hi
    · exact ⟨_, cache_keep_self⟩

theorem Sound.lt (h : r.Sound K M) {i : UInt32} (hi : i ∈ r.verified) :
    i.toNat < M.chunks.length := by
  obtain ⟨b, hb⟩ := h.held i hi
  exact (List.getElem?_eq_some_iff.1 (h.hash i b hb)).1

theorem receiveAll_append (as bs : List Chunk) :
    r.receiveAll (as ++ bs) = (r.receiveAll as).receiveAll bs := List.foldl_append

theorem Sound.receiveAll (h : r.Sound K M) (hcs : ∀ c ∈ cs, verifyChunk K M c = .ok ()) :
    (r.receiveAll cs).Sound K M := by
  induction cs generalizing r with
  | nil => exact h
  | cons c cs ih =>
    exact ih (h.receive (hcs c List.mem_cons_self)) fun d hd => hcs d (List.mem_cons_of_mem _ hd)

theorem mem_receiveAll {i : UInt32} :
    i ∈ (r.receiveAll cs).verified ↔ i ∈ r.verified ∨ ∃ c ∈ cs, c.index = i := by
  induction cs generalizing r with
  | nil => simp [receiveAll]
  | cons c cs ih =>
    have hcons : r.receiveAll (c :: cs) = (r.receive c).receiveAll cs := rfl
    have hsplit : (∃ d ∈ c :: cs, d.index = i) ↔ c.index = i ∨ ∃ d ∈ cs, d.index = i := by simp
    rw [hcons, ih, mem_receive, hsplit, or_assoc, eq_comm (a := i)]

theorem cache_receiveAll {i : UInt32} {b : Bytes} (h : (r.receiveAll cs).cache i = some b) :
    r.cache i = some b ∨ ∃ c ∈ cs, c.index = i ∧ c.data = b := by
  induction cs generalizing r with
  | nil => exact .inl h
  | cons c cs ih =>
    rcases ih (r := r.receive c) h with h | ⟨d, hd, hdata⟩
    · have hkeep : (r.keep c).cache i = some b := h
      by_cases hic : i = c.index
      · subst hic
        rw [cache_keep_self, Option.some.injEq] at hkeep
        exact .inr ⟨c, List.mem_cons_self, rfl, hkeep⟩
      · rw [cache_keep_of_ne hic] at hkeep
        exact .inl hkeep
    · exact .inr ⟨d, List.mem_cons_of_mem _ hd, hdata⟩

theorem Sound.length_ne (h : r.Sound K M) {i : ℕ} (hi : i < M.chunks.length)
    (hmissing : ∀ j ∈ r.verified, j.toNat ≠ i) : r.verified.length ≠ M.chunks.length := by
  intro hlen
  have hperm : (r.verified.map UInt32.toNat).Perm (List.range M.chunks.length) := by
    refine perm_range_of_nodup (h.nodup.map fun a b hab => UInt32.toNat_inj.1 hab) ?_
      (by rw [List.length_map, hlen])
    intro n hn
    obtain ⟨j, hj, rfl⟩ := List.mem_map.1 hn
    exact h.lt hj
  obtain ⟨j, hj, hji⟩ := List.mem_map.1 (hperm.mem_iff.2 (List.mem_range.2 hi))
  exact hmissing j hj hji

end Receiver

/-! ### Runs that do not complete -/

/-- A run of calls about `M`, the first of which announces it where no state is saved; the system
refuses nothing, and some chunk is never received validly. -/
structure OpenTransfer (K : Primitives) (C : FileCodecs) (home : Home) (id : String)
    (M : FileManifest) (t : Tree) (calls : List Call) : Prop where
  verified : verifyManifest K C.manifest M = .ok ()
  fresh : t.file? (statePath home id).norm = none
  about : About M calls
  ioOk : ∀ call answer, (call, answer) ∈ (receiver K C home id).transcript t
      (.announce M :: calls) →
    ∀ e, answer ≠ .error (.io e)
  missing : ∃ i < M.chunks.length, ∀ c ∈ validChunks K M calls, c.index.toNat ≠ i

/-- One call about `M`, if the system refuses nothing and a chunk is still missing. -/
theorem holds_step {call : Call} (h : Holds C home id M t r)
    (hM : verifyManifest K C.manifest M = .ok ())
    (habout : call = .announce M ∨ ∃ c, call = .chunk c)
    (hio : ∀ e, ((receiver K C home id).step t call).1 ≠ .error (.io e))
    (hlen : (r.receiveAll (validChunks K M [call])).verified.length ≠ M.chunks.length) :
    Holds C home id M ((receiver K C home id).step t call).2
      (r.receiveAll (validChunks K M [call])) := by
  rcases habout with rfl | ⟨c, rfl⟩
  · cases hrun : announce K C home id M t with
    | mk res t' =>
    have hstep : ((receiver K C home id).step t (.announce M)).2 = t' := by
      simp only [receiver, hrun]
    rw [hstep]
    exact (announce_again h hM hrun).2.1
  · cases hv : verifyChunk K M c with
    | error e =>
      have hnone : validChunks K M [.chunk c] = [] := by
        rw [validChunks, if_neg (by simp [hv])]
        rfl
      have hstep : ((receiver K C home id).step t (.chunk c)).2 = t := by
        simp only [receiver, receiveChunk_rejected h hv]
      rw [hnone, hstep]
      exact h
    | ok =>
      have hone : validChunks K M [.chunk c] = [c] := by rw [validChunks, if_pos hv]; rfl
      rw [hone] at hlen ⊢
      have hreceive : r.receiveAll [c] = r.receive c := rfl
      rw [hreceive] at hlen ⊢
      cases hrun : receiveChunk K C home id c t with
      | mk res t' =>
      have hstep : (receiver K C home id).step t (.chunk c) = (res.map .status, t') := by
        simp only [receiver, hrun]
      rw [hstep] at hio ⊢
      obtain ⟨t₁, -, -, -, hreceived⟩ := receiveChunk_step h hv hrun
      cases hreceived with
      | failed holds => exact absurd rfl (hio _)
      | again mem holds =>
        have hagain : r.receive c = r.keep c := by
          rw [Receiver.receive, if_pos mem]; rfl
        rw [hagain]
        exact holds
      | more notMem holds length => exact holds
      -- The last chunk would empty the list of missing ones, which `hlen` excludes.
      | last notMem holds length reconstruct => exact absurd length hlen

/-- **The tree refines the abstract receiver**, over any calls about the manifest. -/
theorem holds_of_calls (hM : verifyManifest K C.manifest M = .ok ())
    (h : Holds C home id M t r) (hr : r.Sound K M) (habout : About M calls)
    (hio : ∀ call answer, (call, answer) ∈ (receiver K C home id).transcript t calls →
      ∀ e, answer ≠ .error (.io e))
    {i : ℕ} (hi : i < M.chunks.length) (hmissing : ∀ j ∈ r.verified, j.toNat ≠ i)
    (hvalid : ∀ c ∈ validChunks K M calls, c.index.toNat ≠ i) :
    Holds C home id M ((receiver K C home id).after t calls)
      (r.receiveAll (validChunks K M calls)) := by
  induction calls generalizing t r with
  | nil => exact h
  | cons call calls ih =>
    have happ : validChunks K M (call :: calls) =
        validChunks K M [call] ++ validChunks K M calls := by
      cases call with
      | announce m => rfl
      | chunk c =>
        simp only [validChunks]
        split <;> rfl
    have hverifies : ∀ c ∈ validChunks K M [call], verifyChunk K M c = .ok () :=
      fun c hc => (mem_validChunks.1 hc).2
    have hone : ∀ c ∈ validChunks K M [call], c.index.toNat ≠ i :=
      fun c hc => hvalid c (happ ▸ List.mem_append_left _ hc)
    have hsound := hr.receiveAll hverifies
    have hmissing' : ∀ j ∈ (r.receiveAll (validChunks K M [call])).verified, j.toNat ≠ i := by
      intro j hj
      rcases Receiver.mem_receiveAll.1 hj with hj | ⟨c, hc, rfl⟩
      · exact hmissing j hj
      · exact hone c hc
    have hstep := holds_step h hM (habout call List.mem_cons_self)
      (hio call _ List.mem_cons_self) (hsound.length_ne hi hmissing')
    rw [happ, Receiver.receiveAll_append]
    exact ih hstep hsound (fun x hx => habout x (List.mem_cons_of_mem _ hx))
      (fun x a hx => hio x a (List.mem_cons_of_mem _ hx)) hmissing'
      fun c hc => hvalid c (happ ▸ List.mem_append_right _ hc)

/-- The receiver that the tree holds after an open transfer. -/
theorem holds_of_openTransfer (h : OpenTransfer K C home id M t calls) :
    Holds C home id M ((receiver K C home id).after t (.announce M :: calls))
        (Receiver.empty.receiveAll (validChunks K M calls)) ∧
      (Receiver.empty.receiveAll (validChunks K M calls)).Sound K M := by
  obtain ⟨i, hi, hmissing⟩ := h.missing
  have hvalid : ∀ c ∈ validChunks K M calls, verifyChunk K M c = .ok () :=
    fun c hc => (mem_validChunks.1 hc).2
  refine ⟨?_, Receiver.sound_empty.receiveAll hvalid⟩
  cases hrun : announce K C home id M t with
  | mk res t' =>
  have hstep : (receiver K C home id).step t (.announce M) = (res.map .resume, t') := by
    simp only [receiver, hrun]
  have hio := h.ioOk
  rw [Machine.transcript, hstep] at hio
  rcases (announce_first h.fresh h.verified hrun).2 with ⟨⟨e, rfl⟩, -⟩ | ⟨-, hholds⟩
  · exact absurd rfl (hio _ _ List.mem_cons_self (.os e))
  · rw [Machine.after_cons, hstep]
    exact holds_of_calls h.verified hholds Receiver.sound_empty h.about
      (fun x a hx => hio x a (List.mem_cons_of_mem _ hx)) hi
      (fun j hj => absurd hj List.not_mem_nil) hmissing

/-- What the receiver knows of the transfer of `M` after some calls. -/
structure Resumes (K : Primitives) (C : FileCodecs) (home : Home) (id : String) (M : FileManifest)
    (calls : List Call) (t : Tree) (s : TransferState) : Prop where
  resume : resumeFor C home id M t = (.ok s, t)
  /-- It is the state on disk as soon as there is something to remember. -/
  persisted : s.verifiedChunks ≠ [] → loadTransferState C home id t = (.ok s, t)
  manifest : s.manifest = M
  nodup : s.verifiedChunks.Nodup
  /-- The indices are those of the chunks that passed `verifyChunk`. -/
  mem : ∀ i, i ∈ s.verifiedChunks ↔
    ∃ c, .chunk c ∈ calls ∧ verifyChunk K M c = .ok () ∧ c.index = i
  cached : ∀ i ∈ s.verifiedChunks, ∃ b,
    (read (chunkPath home id i) : FsM FileError Bytes) t = (.ok b, t) ∧
      M.chunks[i.toNat]? = some (K.hash b)
  /-- The missing indices are the others, in increasing order. -/
  increasing : s.missing.Pairwise (· < ·)
  mem_missing : ∀ i, i ∈ s.missing ↔ i.toNat < M.chunks.length ∧ i ∉ s.verifiedChunks
  /-- A chunk that does not verify changes nothing. -/
  rejected : ∀ c e, verifyChunk K M c = .error e →
    receiveChunk K C home id c t = (.error e, t)

namespace TransferState

variable {s : TransferState}

theorem mem_missing (hn : s.manifest.chunks.length < 2 ^ 32) {i : UInt32} :
    i ∈ s.missing ↔ i.toNat < s.manifest.chunks.length ∧ i ∉ s.verifiedChunks := by
  simp only [missing, List.mem_filter, List.mem_map, List.mem_range, decide_eq_true_eq]
  refine and_congr_left fun _ => ⟨?_, fun hi => ⟨i.toNat, hi, UInt32.ofNat_toNat⟩⟩
  rintro ⟨n, hlt, rfl⟩
  rwa [UInt32.toNat_ofNat_of_lt' (hlt.trans hn)]

/-- The missing indices increase, because as `u32`s they do not wrap around. -/
theorem pairwise_missing (hn : s.manifest.chunks.length < 2 ^ 32) :
    s.missing.Pairwise (· < ·) := by
  refine List.Pairwise.filter _ (List.pairwise_map.2 ?_)
  have hrange : (List.range s.manifest.chunks.length).Pairwise (· < ·) := List.pairwise_lt_range
  refine hrange.imp_of_mem fun {a b} ha hb hab => ?_
  have ha' := (List.mem_range.1 ha).trans hn
  have hb' := (List.mem_range.1 hb).trans hn
  rw [UInt32.lt_iff_toNat_lt, UInt32.toNat_ofNat_of_lt' ha', UInt32.toNat_ofNat_of_lt' hb']
  exact hab

theorem missing_congr {s' : TransferState} (hm : s.manifest = s'.manifest)
    (hv : ∀ i, i ∈ s.verifiedChunks ↔ i ∈ s'.verifiedChunks) : s.missing = s'.missing := by
  simp only [missing, hm, hv]

end TransferState

theorem resumes_of_holds (h : Holds C home id M t r) (hr : r.Sound K M)
    (hn : M.chunks.length < 2 ^ 32)
    (hv : ∀ i, i ∈ r.verified ↔ ∃ c ∈ validChunks K M calls, c.index = i) :
    Resumes K C home id M calls t ⟨M, r.verified, []⟩ where
  resume := h.resume
  persisted hne := by
    rcases h.state with ⟨hnil, -⟩ | hstate
    · exact absurd hnil hne
    · rw [loadTransferState, FsM.bind_of_ok (read_of_hasFile hstate), FsM.ofExcept_apply,
        C.state.decode_encode]
      rfl
  manifest := rfl
  nodup := hr.nodup
  mem i := by
    rw [hv i]
    constructor
    · rintro ⟨c, hc, hi⟩
      exact ⟨c, (mem_validChunks.1 hc).1, (mem_validChunks.1 hc).2, hi⟩
    · rintro ⟨c, hc, hok, hi⟩
      exact ⟨c, mem_validChunks.2 ⟨hc, hok⟩, hi⟩
  cached i hi := by
    obtain ⟨b, hb⟩ := hr.held i hi
    exact ⟨b, read_of_hasFile (h.cached i b hb), hr.hash i b hb⟩
  increasing := TransferState.pairwise_missing hn
  mem_missing _ := TransferState.mem_missing hn
  rejected _ _ hc := receiveChunk_rejected h hc

/-- **Resuming.**  After any calls of an open transfer the receiver knows exactly the chunks that
verified, and the cached data, the indices and what is missing are the same in any other open
transfer with the same chunks that verify. -/
theorem resume_spec (h : OpenTransfer K C home id M t calls) (hn : M.chunks.length < 2 ^ 32) :
    ∃ s, Resumes K C home id M calls ((receiver K C home id).after t (.announce M :: calls)) s ∧
      ∀ t' calls', OpenTransfer K C home id M t' calls' →
        (∀ c, c ∈ validChunks K M calls ↔ c ∈ validChunks K M calls') →
        ∃ s', Resumes K C home id M calls'
            ((receiver K C home id).after t' (.announce M :: calls')) s' ∧
          (∀ i, i ∈ s.verifiedChunks ↔ i ∈ s'.verifiedChunks) ∧ s.missing = s'.missing ∧
          (Set.InjOn K.hash {b | ∃ c ∈ validChunks K M calls, c.data = b} →
            ∀ i ∈ s.verifiedChunks, ∃ b,
              (read (chunkPath home id i) : FsM FileError Bytes)
                ((receiver K C home id).after t (.announce M :: calls)) =
                  (.ok b, (receiver K C home id).after t (.announce M :: calls)) ∧
              (read (chunkPath home id i) : FsM FileError Bytes)
                ((receiver K C home id).after t' (.announce M :: calls')) =
                  (.ok b, (receiver K C home id).after t' (.announce M :: calls'))) := by
  have hmem : ∀ cs : List Chunk, ∀ i : UInt32, i ∈ (Receiver.empty.receiveAll cs).verified ↔
      ∃ c ∈ cs, c.index = i := by
    intro cs i
    rw [Receiver.mem_receiveAll]
    exact or_iff_right List.not_mem_nil
  obtain ⟨hholds, hsound⟩ := holds_of_openTransfer h
  refine ⟨_, resumes_of_holds hholds hsound hn (hmem _), fun t' calls' h' hsame => ?_⟩
  obtain ⟨hholds', hsound'⟩ := holds_of_openTransfer h'
  have hverified : ∀ i, i ∈ (Receiver.empty.receiveAll (validChunks K M calls)).verified ↔
      i ∈ (Receiver.empty.receiveAll (validChunks K M calls')).verified := by
    intro i
    simp only [hmem, hsame]
  refine ⟨_, resumes_of_holds hholds' hsound' hn (hmem _), hverified,
    TransferState.missing_congr rfl hverified, fun hinj i hi => ?_⟩
  obtain ⟨b, hb⟩ := hsound.held i hi
  obtain ⟨b', hb'⟩ := hsound'.held i ((hverified i).1 hi)
  -- both are data of chunks received in either run, and hash to the same
  have hhash : K.hash b = K.hash b' :=
    Option.some.inj ((hsound.hash i b hb).symm.trans (hsound'.hash i b' hb'))
  have hdata : ∀ cs x, (Receiver.empty.receiveAll cs).cache i = some x → ∃ c ∈ cs, c.data = x := by
    intro cs x hx
    rcases Receiver.cache_receiveAll hx with hx | ⟨c, hc, -, hd⟩
    · cases hx
    · exact ⟨c, hc, hd⟩
  obtain ⟨c', hc', hd'⟩ := hdata _ _ hb'
  obtain rfl := hinj (hdata _ _ hb) ⟨c', (hsame c').2 hc', hd'⟩ hhash
  exact ⟨b, read_of_hasFile (hholds.cached i b hb), read_of_hasFile (hholds'.cached i b hb')⟩

/-! ### A photo of two chunks -/

namespace Photo

/-- The receiver's state directory. -/
def device : Home := ⟨["node"], by decide⟩

/-- The sender. -/
def owner : Identity := ⟨digits 32 7⟩

/-- The manifest of a file of three bytes called `name`. -/
def manifest (name : String) : FileManifest :=
  FileManifest.signed Primitives.sample FileCodecs.postcard.manifest owner
    { version := 1
      name := name
      totalSize := 3
      chunkSize := 2
      chunks := [polyHash [1, 2], polyHash [3]]
      signer := owner.pub Primitives.sample
      signature := zeroSignature }

/-- The first chunk. -/
def first : Chunk := ⟨0, polyHash [1, 2], [1, 2]⟩

/-- The second chunk. -/
def second : Chunk := ⟨1, polyHash [3], [3]⟩

/-- The second chunk, garbled on the way. -/
def garbled : Chunk := ⟨1, polyHash [3], [4]⟩

/-- An empty disk. -/
def disk : Tree := .bare fun _ => true

/-- The system refused nothing. -/
def answered : Except FileError Answer → Bool
  | .error (.io _) => false
  | _ => true

/-- Calls that the system serves and that leave the second chunk missing. -/
theorem openTransfer {calls : List Call} (habout : About (manifest "photo") calls)
    (hio : (((receiver .sample .postcard device "p").transcript disk
      (.announce (manifest "photo") :: calls)).all fun x => answered x.2) = true)
    (hmissing : ∀ c ∈ validChunks .sample (manifest "photo") calls, c.index.toNat ≠ 1) :
    OpenTransfer .sample .postcard device "p" (manifest "photo") disk calls where
  verified := by decide +kernel
  fresh := by decide +kernel
  about := habout
  ioOk call answer hmem e he := by
    have hanswered := List.all_eq_true.1 hio _ hmem
    rw [he] at hanswered
    cases hanswered
  missing := ⟨1, by decide, hmissing⟩

end Photo

/-- The first chunk, sent twice with a garbled one and a second announcement in between, leaves
the receiver as if it had been sent once. -/
theorem resume_spec_photo :
    ∃ s s', Resumes .sample .postcard Photo.device "p" (Photo.manifest "photo")
        [.chunk Photo.first, .chunk Photo.garbled, .announce (Photo.manifest "photo"),
          .chunk Photo.first]
        ((receiver .sample .postcard Photo.device "p").after Photo.disk
          [.announce (Photo.manifest "photo"), .chunk Photo.first, .chunk Photo.garbled,
            .announce (Photo.manifest "photo"), .chunk Photo.first]) s ∧
      Resumes .sample .postcard Photo.device "p" (Photo.manifest "photo") [.chunk Photo.first]
        ((receiver .sample .postcard Photo.device "p").after Photo.disk
          [.announce (Photo.manifest "photo"), .chunk Photo.first]) s' ∧
      s.missing = s'.missing := by
  have hmany : OpenTransfer .sample .postcard Photo.device "p" (Photo.manifest "photo") Photo.disk
      [.chunk Photo.first, .chunk Photo.garbled, .announce (Photo.manifest "photo"),
        .chunk Photo.first] :=
    Photo.openTransfer (by simp [About]) (by decide +kernel) (by decide +kernel)
  have honce : OpenTransfer .sample .postcard Photo.device "p" (Photo.manifest "photo") Photo.disk
      [.chunk Photo.first] :=
    Photo.openTransfer (by simp [About]) (by decide +kernel) (by decide +kernel)
  have hvalid : validChunks .sample (Photo.manifest "photo") [.chunk Photo.first,
      .chunk Photo.garbled, .announce (Photo.manifest "photo"), .chunk Photo.first] =
        [Photo.first, Photo.first] := by decide +kernel
  have hvalid' : validChunks .sample (Photo.manifest "photo") [.chunk Photo.first] =
      [Photo.first] := by decide +kernel
  obtain ⟨s, hs, hsame⟩ := resume_spec hmany (by decide)
  obtain ⟨s', hs', -, hmissing, -⟩ := hsame _ _ honce (by simp [hvalid, hvalid'])
  exact ⟨s, s', hs, hs', hmissing⟩

end Neonet
