import DefTally.Proofs.Process.Run

/-!
# Sessions

Whatever was asked of a counter before, it answers a question as the file system is then
(`Question.settles_ask`). So a session gives the answers that counters of their own would give, each in
a process of its own (`session_answers`).
-/

namespace DefTally

open DefTally.FileSystem DefTally.Output

namespace Question

/-- The answer to a question about a file system. -/
def answer (fs : FileSystem) : Question → Answer
  | tryCount path => .counted (fs.tryCount path)
  | count path => .number (fs.count path)
  | countAlone path => .number (fs.count path)
  | scan root => .tally (fs.scan root)

/-- A question is answered as the file system is, which stays as it was. -/
theorem settles_ask (q : Question) (p : Process) :
    ∃ events, Process.Settles q.ask p (q.answer p.fileSystem) (p.told events) := by
  cases q with
  | tryCount path =>
    refine ⟨[], ?_⟩
    rw [Process.told_nil]
    exact Process.settles_tryCount.bind (.pure _ p)
  | count path => exact ⟨_, (Process.settles_count path).bind (.pure _ _)⟩
  | countAlone path => exact ⟨_, (Process.Settles.lift (Process.countAlone_eq path)).bind (.pure _ _)⟩
  | scan root => exact ⟨_, (Process.Settles.lift (Process.scan_eq root p)).bind (.pure _ _)⟩

/-- The answer to a question by a counter that was never asked before, in a process that has done
nothing. -/
def askAlone (q : Question) (fs : FileSystem) : Answer := (q.ask .fresh (.start fs .unlimited)).1.1

theorem askAlone_eq (q : Question) (fs : FileSystem) : q.askAlone fs = q.answer fs := by
  obtain ⟨_, settles⟩ := q.settles_ask (.start fs .unlimited)
  obtain ⟨_, answered⟩ := settles .fresh
  rw [askAlone, answered]
  rfl

end Question

/-- The answers to the questions of a session, each by a counter of its own on the file system as it is
then. -/
def answersAlone (fs : FileSystem) : List Step → List Answer
  | [] => []
  | .become fs :: rest => answersAlone fs rest
  | .ask q :: rest => q.askAlone fs :: answersAlone fs rest

/-- The answers of a session do not depend on what its counter was asked before. -/
theorem session_answers (steps : List Step) : ∀ (c : Counter) (p : Process),
    (session steps c p).1.1 = answersAlone p.fileSystem steps := by
  induction steps with
  | nil => exact fun _ _ => rfl
  | cons step rest ih =>
    intro c p
    cases step with
    | become fs => exact ih c { p with fileSystem := fs }
    | ask q =>
      obtain ⟨events, settles⟩ := q.settles_ask p
      obtain ⟨c', answered⟩ := settles c
      have onward := ih c' (p.told events)
      have both : (session (.ask q :: rest) c p).1.1 = (q.ask c p).1.1 ::
          (session rest (q.ask c p).1.2 (q.ask c p).2).1.1 := rfl
      rw [both, answered, answersAlone, Question.askAlone_eq, onward, Process.told_fileSystem]

end DefTally
