import Noissh.SocksSpec

/-! Negotiation over any reads. What has been parsed of the bytes so far does not depend on where
they were cut; but the limit on the buffer is applied to what comes behind a request as well. -/
namespace Noissh.Socks.SocksConn

variable {u v s : Bytes}

/-- What calls have written, how the last one ended, and what it has not read. -/
structure Negotiated where
  sent : Bytes
  result : Progress
  unread : Bytes
  deriving DecidableEq, Repr

/-- Calls over these reads, up to one that does not end pending. -/
def negotiates (c : SocksConn) : List Bytes → Negotiated
  | [] => ⟨[],.pending c,[]⟩
  | batch :: rest =>
    match c.negotiate batch .wouldBlock with
    | (sent,.pending c) =>
      let later := negotiates c rest
      { later with sent := sent ++ later.sent }
    | (sent,result) => ⟨sent,result,rest.flatten⟩

/-- Between two calls everything queued has been sent. -/
def resumed (u : Bytes) : SocksConn := { parsed u with out := [] }

/-- A parser that goes on is where one is that starts over with all of the bytes. -/
theorem Waiting.append (waiting : Waiting u) (v : Bytes) :
    parsed (u ++ v) = ((resumed u).more v).tryParse.behind (parsed u).out := by
  cases waiting with
  | greeting unread =>
    unfold resumed
    rw [unread]
    rfl
  | @request n methods rest offers length greeted unread short =>
    have later := parsed_greeting offers length (rest ++ v)
    rw [← List.append_assoc] at later
    unfold resumed
    rw [unread,greeted,List.cons_append,List.cons_append,later]
    exact parseSocks5Request_behind { inbuf := rest ++ v, phase := .request } [0x05,0x00]

theorem Waiting.phase (waiting : Waiting u) : (parsed u).phase = .greeting ∨ (parsed u).phase = .request := by
  cases waiting with
  | greeting unread => exact .inl (by rw [unread])
  | request _ _ _ unread _ => exact .inr (by rw [unread])

theorem Waiting.buffered (waiting : Waiting u) : (parsed u).inbuf.length ≤ u.length := by
  cases waiting with
  | greeting unread => exact Nat.le_of_eq (by rw [unread])
  | request _ _ greeted unread _ =>
    rw [unread,greeted]
    simp only [List.length_cons,List.length_append]
    omega

/-- The result of a call by the phase it ends in. -/
def outcome (c : SocksConn) : Progress :=
  match c.phase with
  | .failed => .failed
  | .done => .connected (c.target.getD "") c.inbuf
  | _ => .pending { c with out := [] }

theorem Waiting.outcome (waiting : Waiting u) : (parsed u).outcome = .pending (resumed u) := by
  unfold resumed
  cases waiting with
  | greeting unread =>
    rw [unread]
    rfl
  | request _ _ _ unread _ =>
    rw [unread]
    rfl

theorem Waiting.negotiate (waiting : Waiting u) (v : Bytes) : (resumed u).negotiate v .wouldBlock =
    if maxNegotiationBytes < (parsed u).inbuf.length + v.length then ([],.failed)
    else (((resumed u).more v).tryParse.out,((resumed u).more v).tryParse.outcome) := by
  have live : (resumed u).phase ≠ .failed := by
    rcases waiting.phase with greeting | request
    · simp [resumed,greeting]
    · simp [resumed,request]
  unfold SocksConn.negotiate
  dsimp only
  rw [if_neg live,if_neg (not_not_intro rfl)]
  have length : ((resumed u).inbuf ++ v).length = (parsed u).inbuf.length + v.length := List.length_append
  rw [length]
  split
  · rfl
  · have ended (c : SocksConn) : (match c.phase with
        | .failed => ([] ++ c.out,Progress.failed)
        | .done => ([] ++ c.out,.connected (c.target.getD "") c.inbuf)
        | _ => ([] ++ c.out,.pending { c with out := [] })) = (c.out,c.outcome) := by
      unfold SocksConn.outcome
      cases c.phase <;> rfl
    exact ended _

theorem Waiting.not_refused (waiting : Waiting u) : ¬∀ v, (parsed (u ++ v)).phase = .failed := by
  intro refused
  have failed := refused []
  rw [List.append_nil] at failed
  rcases waiting.phase with same | same <;> cases failed.symm.trans same

theorem Waiting.not_request {request reply leftover : Bytes} {target : String} (waiting : Waiting (request ++ leftover)) :
    ¬Request request target reply := by
  intro asked
  have done := congrArg SocksConn.phase (parsed_request asked leftover)
  rcases waiting.phase with same | same <;> cases done.symm.trans same

theorem refused_not_request {request reply leftover : Bytes} {target : String}
    (refused : ∀ v, (parsed (u ++ v)).phase = .failed) (whole : u ++ v = request ++ leftover) :
      ¬Request request target reply := by
  intro asked
  have failed := refused v
  rw [whole,parsed_request asked leftover] at failed
  cases failed

/-- Of two requests at the start of the same bytes neither is longer. -/
theorem request_unique {request request' reply reply' leftover leftover' : Bytes} {target target' : String}
    (asked : Request request target reply) (asked' : Request request' target' reply')
    (whole : request ++ leftover = request' ++ leftover') :
    request = request' ∧ target = target' ∧ reply = reply' ∧ leftover = leftover' := by
  have same := parsed_request asked leftover
  rw [whole,parsed_request asked' leftover'] at same
  injection same with left sent _ aim
  refine ⟨?_,(Option.some.inj aim).symm,sent.symm,left.symm⟩
  rw [left] at whole
  exact List.append_cancel_right whole

/-- How calls end that have read these bytes, by what the parser finds in them. -/
inductive Ends (v : Bytes) (r : Negotiated) : Prop where
  | pending {c : SocksConn} (result : r.result = .pending c) (all : r.unread = []) (waiting : Waiting v)
      (fits : v.length ≤ maxNegotiationBytes) : Ends v r
  | refused (result : r.result = .failed) (refused : ∀ w, (parsed (v ++ w)).phase = .failed) : Ends v r
  | full (result : r.result = .failed) (long : maxNegotiationBytes < v.length) : Ends v r
  | connected {request leftover : Bytes} {target : String} (asked : Request request target r.sent)
      (fits : request.length ≤ maxNegotiationBytes) (read : v = request ++ leftover)
      (result : r.result = .connected target leftover) : Ends v r

/-- The bytes at hand when a call goes on waiting fit in the buffer. -/
theorem Waiting.append_fits (waiting : Waiting u) (waiting' : Waiting (u ++ v))
    (within : (parsed u).inbuf.length + v.length ≤ maxNegotiationBytes) : (u ++ v).length ≤ maxNegotiationBytes := by
  cases waiting' with
  | greeting unread =>
    have sent := congrArg SocksConn.out (waiting.append v)
    rw [unread] at sent
    cases waiting with
    | greeting unread => rwa [unread,← List.length_append] at within
    | request _ _ _ unread _ => simp [unread,behind] at sent
  | @request n _ _ _ length greeted _ short =>
    have := n.toNat_lt
    rw [greeted]
    simp only [List.length_cons,List.length_append,length,maxNegotiationBytes]
    omega

/-- A request that a call grants fits in the buffer. -/
theorem Waiting.request_fits (waiting : Waiting u) (within : (parsed u).inbuf.length + v.length ≤ maxNegotiationBytes)
    {request reply leftover : Bytes} {target : String} (asked : Request request target reply)
    (whole : u ++ v = request ++ leftover) : request.length ≤ maxNegotiationBytes := by
  cases waiting with
  | greeting unread =>
    have length := congrArg List.length whole
    rw [unread] at within
    simp only [List.length_append] at length within
    omega
  | request _ _ greeted _ _ =>
    apply asked.short
    rw [greeted] at whole
    cases asked with
    | socks5 => rfl
    | socks4 => cases whole
    | socks4a => cases whole

/-- Calls over any reads end as the parser does on the bytes that they have read. -/
theorem negotiates_ends (waiting : Waiting u) (fits : u.length ≤ maxNegotiationBytes) (reads : List Bytes) :
    let r := negotiates (resumed u) reads
    ∃ read, read ++ r.unread = reads.flatten ∧ Ends (u ++ read) { r with sent := (parsed u).out ++ r.sent } := by
  induction reads generalizing u with
  | nil => exact ⟨[],rfl,.pending rfl rfl (by rwa [List.append_nil]) (by rwa [List.append_nil])⟩
  | cons batch rest ih =>
    have call := waiting.negotiate batch
    have parse := waiting.append batch
    by_cases long : maxNegotiationBytes < (parsed u).inbuf.length + batch.length
    · rw [if_pos long] at call
      have buffered := waiting.buffered
      rw [negotiates,call]
      refine ⟨batch,rfl,.full rfl ?_⟩
      rw [List.length_append]
      omega
    rw [if_neg long] at call
    have within := Nat.le_of_not_lt long
    generalize ((resumed u).more batch).tryParse = next at call parse
    have sent : (parsed (u ++ batch)).out = (parsed u).out ++ next.out := congrArg SocksConn.out parse
    have ended : (parsed (u ++ batch)).outcome = next.outcome := by rw [parse]; rfl
    rw [← ended] at call
    rw [negotiates,call]
    rcases parsed_cases (u ++ batch) with waiting' | refused | ⟨request,target,reply,leftover,asked,whole⟩
    · rw [waiting'.outcome]
      obtain ⟨read,whole,ends⟩ := ih waiting' (waiting.append_fits waiting' within)
      refine ⟨batch ++ read,by rw [List.append_assoc,whole]; rfl,?_⟩
      rw [sent,List.append_assoc,List.append_assoc] at ends
      exact ends
    · have failed := refused []
      rw [List.append_nil] at failed
      have drops : (parsed (u ++ batch)).outcome = .failed := by
        unfold outcome
        rw [failed]
      rw [drops]
      exact ⟨batch,rfl,.refused rfl refused⟩
    · have done := parsed_request asked leftover
      rw [← whole] at done
      have hands : (parsed (u ++ batch)).outcome = .connected target leftover := by rw [done]; rfl
      rw [hands]
      rw [done] at sent
      refine ⟨batch,rfl,.connected ?_ (waiting.request_fits within asked whole) whole rfl⟩
      rw [← sent]
      exact asked

/-- Negotiation of these bytes does not depend on the reads: all end in failure, or all wait for
more, or all that cover the request that the bytes begin with connect to its target, with the
reply to it, and hand on what follows it. -/
def Unsegmented (s : Bytes) : Prop :=
  (∀ reads : List Bytes, reads.flatten = s → (negotiates {} reads).result = .failed) ∨
  (∀ reads : List Bytes, reads.flatten = s → ∃ c, (negotiates {} reads).result = .pending c) ∨
  ∃ request target reply, Request request target reply ∧ request <+: s ∧
    ∀ (reads : List Bytes) (later : Bytes), reads.flatten ++ later = s → request.length ≤ reads.flatten.length →
      ∃ leftover unread, negotiates {} reads = ⟨reply,.connected target leftover,unread⟩ ∧
        request ++ leftover ++ (unread ++ later) = s

theorem waiting_nil : Waiting [] := .greeting rfl

theorem start_ends (reads : List Bytes) : ∃ read, read ++ (negotiates {} reads).unread = reads.flatten ∧
    Ends read (negotiates {} reads) :=
  negotiates_ends waiting_nil (Nat.zero_le _) reads

/-- Where all that was read is a start of a request, no call connects. -/
theorem Ends.not_connected {r : Negotiated} {read later : Bytes} (ends : Ends read r)
    (none : ∀ request target reply leftover, read ++ later = request ++ leftover → request.length ≤ maxNegotiationBytes →
      ¬Request request target reply) : r.result = .failed ∨
      (∃ c, r.result = .pending c) ∧ r.unread = [] ∧ Waiting read ∧ read.length ≤ maxNegotiationBytes := by
  cases ends with
  | pending result all waiting fits => exact .inr ⟨⟨_,result⟩,all,waiting,fits⟩
  | refused result _ => exact .inl result
  | full result _ => exact .inl result
  | @connected request leftover target asked fits whole _ =>
    exact absurd asked (none request target _ (leftover ++ later) (by rw [whole,List.append_assoc]) fits)

/-- If no request of the bytes fits in the buffer, reads of all of them fail, unless they are a
short start of one. -/
theorem fails_of_none (none : ∀ request target reply leftover, s = request ++ leftover →
      request.length ≤ maxNegotiationBytes → ¬Request request target reply)
    (closed : ¬(Waiting s ∧ s.length ≤ maxNegotiationBytes)) {reads : List Bytes} (joined : reads.flatten = s) :
    (negotiates {} reads).result = .failed := by
  obtain ⟨read,whole,ends⟩ := start_ends reads
  rw [joined] at whole
  rcases ends.not_connected (whole ▸ none) with failed | ⟨_,all,waiting,fits⟩
  · exact failed
  · rw [all,List.append_nil] at whole
    exact absurd ⟨whole ▸ waiting,whole ▸ fits⟩ closed

theorem waits_of_short (waiting : Waiting s) (fits : s.length ≤ maxNegotiationBytes) {reads : List Bytes}
    (joined : reads.flatten = s) : ∃ c, (negotiates {} reads).result = .pending c := by
  obtain ⟨read,whole,ends⟩ := start_ends reads
  rw [joined] at whole
  cases ends with
  | pending result => exact ⟨_,result⟩
  | refused _ refused =>
    refine absurd (fun v => ?_) waiting.not_refused
    rw [← whole,List.append_assoc]
    exact refused _
  | full _ long =>
    have length := congrArg List.length whole
    rw [List.length_append] at length
    omega
  | connected asked _ begins _ =>
    rw [← whole,begins,List.append_assoc] at waiting
    exact absurd asked waiting.not_request

/-- Reads that cover a request at the start of bytes that fit in the buffer connect. -/
theorem connects_of_covered {request leftover reply : Bytes} {target : String} (asked : Request request target reply)
    (fits : (request ++ leftover).length ≤ maxNegotiationBytes) {reads : List Bytes} {later : Bytes}
    (joined : reads.flatten ++ later = request ++ leftover) (covered : request.length ≤ reads.flatten.length) :
    ∃ leftover' unread, negotiates {} reads = ⟨reply,.connected target leftover',unread⟩ ∧
      request ++ leftover' ++ (unread ++ later) = request ++ leftover := by
  obtain ⟨read,whole,ends⟩ := start_ends reads
  have all : read ++ ((negotiates {} reads).unread ++ later) = request ++ leftover := by
    rw [← List.append_assoc,whole,joined]
  generalize negotiates {} reads = r at whole ends all
  cases ends with
  | pending _ none waiting _ =>
    rw [none,List.append_nil] at whole
    obtain ⟨more,here⟩ := List.prefix_of_prefix_length_le ⟨leftover,rfl⟩ ⟨later,joined⟩ covered
    rw [whole,← here] at waiting
    exact absurd asked waiting.not_request
  | refused _ refused => exact absurd asked (refused_not_request refused all)
  | full _ long =>
    rw [← all,List.length_append] at fits
    omega
  | @connected request' leftover' target' asked' _ begins result =>
    rw [begins,List.append_assoc] at all
    obtain ⟨rfl,rfl,sent,_⟩ := request_unique asked' asked all
    refine ⟨leftover',r.unread,?_,by rw [List.append_assoc]; exact all⟩
    rw [← result,← sent]

theorem fails_at_once (long : maxNegotiationBytes < s.length) : (negotiates {} [s]).result = .failed := by
  have call := waiting_nil.negotiate s
  rw [if_pos (Nat.lt_of_lt_of_le long (Nat.le_add_left _ _))] at call
  unfold negotiates
  rw [show ({} : SocksConn) = resumed [] from rfl,call]

theorem connects_alone {request reply : Bytes} {target : String} (asked : Request request target reply)
    (fits : request.length ≤ maxNegotiationBytes) (rest : Bytes) :
    (negotiates {} [request,rest]).result = .connected target [] := by
  have call := waiting_nil.negotiate request
  have within : ¬maxNegotiationBytes < (parsed []).inbuf.length + request.length := by
    rw [show (parsed []).inbuf.length = 0 from rfl]
    omega
  have done := parsed_request asked []
  rw [List.append_nil] at done
  rw [if_neg within,show ((resumed []).more request).tryParse = parsed request from rfl,done] at call
  unfold negotiates
  rw [show ({} : SocksConn) = resumed [] from rfl,call]
  rfl

/-- Of bytes that do not fit a request in front is granted if it is read by itself, and not if
all is read at once. -/
theorem not_unsegmented {request reply rest : Bytes} {target : String} (asked : Request request target reply)
    (fits : request.length ≤ maxNegotiationBytes) (long : maxNegotiationBytes < (request ++ rest).length) :
    ¬Unsegmented (request ++ rest) := by
  have once := fails_at_once long
  have apart := connects_alone asked fits rest
  rintro (fails | waits | ⟨request',_,_,_,begins,covered⟩)
  · cases apart.symm.trans (fails [request,rest] (by simp))
  · obtain ⟨_,pending⟩ := waits [request ++ rest] (by simp)
    cases once.symm.trans pending
  · obtain ⟨_,_,connected,_⟩ := covered [request ++ rest] [] (by simp) (by simpa using begins.length_le)
    rw [connected] at once
    cases once

/-- Negotiation does not depend on the reads exactly if the bytes fit in the buffer or begin with
no request that does. -/
theorem unsegmented_iff (s : Bytes) : Unsegmented s ↔ s.length ≤ maxNegotiationBytes ∨
    ∀ request target reply, Request request target reply → request <+: s → maxNegotiationBytes < request.length := by
  constructor
  · intro unsegmented
    by_contra neither
    obtain ⟨long,begins⟩ := not_or.mp neither
    apply begins
    rintro request target reply asked ⟨rest,rfl⟩
    by_contra fits
    exact not_unsegmented asked (Nat.le_of_not_lt fits) (Nat.lt_of_not_le long) unsegmented
  · intro bounded
    by_cases begins : ∃ request target reply leftover, s = request ++ leftover ∧ request.length ≤ maxNegotiationBytes ∧
        Request request target reply
    · obtain ⟨request,target,reply,leftover,rfl,fits,asked⟩ := begins
      have short : (request ++ leftover).length ≤ maxNegotiationBytes := by
        refine bounded.resolve_right fun none => ?_
        exact absurd (none request target reply asked ⟨leftover,rfl⟩) (Nat.not_lt.mpr fits)
      refine .inr (.inr ⟨request,target,reply,asked,⟨leftover,rfl⟩,fun reads later joined covered => ?_⟩)
      exact connects_of_covered asked short joined covered
    · have none : ∀ request target reply leftover, s = request ++ leftover → request.length ≤ maxNegotiationBytes →
          ¬Request request target reply :=
        fun request target reply leftover whole fits asked => begins ⟨request,target,reply,leftover,whole,fits,asked⟩
      by_cases open_ : Waiting s ∧ s.length ≤ maxNegotiationBytes
      · exact .inr (.inl fun reads joined => waits_of_short open_.1 open_.2 joined)
      · exact .inl fun reads joined => fails_of_none none open_ joined

/-- Data sent behind a request without waiting for the reply. -/
theorem early_data_refused : ¬Unsegmented ([5,1,0,5,1,0,1,1,2,3,4,0,80] ++ List.replicate 600 0x61) := by
  have connects : Connect [5,1,0,1,1,2,3,4,0,80] (targetText 1 "1.2.3.4" 0 80) :=
    @Connect.mk 1 0 0 80 [] [1,2,3,4] "1.2.3.4" .v4 (by decide)
  have asked : Request [5,1,0,5,1,0,1,1,2,3,4,0,80] _ _ := @Request.socks5 1 [0] _ _ (by decide) rfl connects
  apply not_unsegmented asked (by decide)
  rw [List.length_append,List.length_replicate]
  decide

end Noissh.Socks.SocksConn
