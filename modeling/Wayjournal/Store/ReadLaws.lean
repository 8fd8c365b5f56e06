import Wayjournal.Crash.ReadOnly
import Wayjournal.Federation.PendingLaws
import Wayjournal.Store.DirectoryLaws
import Wayjournal.Store.Transaction

namespace Wayjournal

open Crash Fs Text

theorem readOnly_component {directory : Directory} {text : String} : (component directory text).ReadOnly := by
  unfold component
  split
  · exact .throw _
  · exact .pure _

theorem readOnly_boundedRegular {directory : Directory} {name : Name} {limit : Nat} :
    (boundedRegular directory name limit).ReadOnly := by
  refine .bind Directory.readOnly_openFile fun file => .ite (.bind (.throw _) fun _ => ?_) ?_
  all_goals exact .pure _

theorem readOnly_journalId (name : Name) : (journalId name).ReadOnly := by
  unfold journalId
  split
  · refine .bind Directory.readOnly_kind fun kind => .ite (.bind (.throw _) fun _ => ?_) ?_
    all_goals
      split
      · split
        · exact .pure _
        · exact .throw _
      · exact .throw _
  · exact .throw _

theorem readOnly_loadRecord [Jiff] {store : Store} {journalPath : StorePath} {directory : Directory} (index : Nat) :
    (loadRecord store journalPath directory index).ReadOnly :=
  .bind readOnly_boundedRegular fun _ => .bind (.ofExcept _) fun _ => .pure _

section

variable [ReadDir]

theorem readOnly_requireNames {directory : Directory} {expected : List Name} {message : String} :
    (requireNames directory expected message).ReadOnly :=
  .bind Directory.readOnly_boundedNames fun _ => .ite (.throw _) (.pure _)

theorem readOnly_validateStageRoot {stage : Directory} : (validateStageRoot stage).ReadOnly :=
  .bind readOnly_requireNames fun _ => .bind Directory.readOnly_kind fun _ => .ite (.throw _) (.pure _)

theorem readOnly_listedJournals : listedJournals.ReadOnly := by
  refine .bind Directory.readOnly_boundedNames fun names => .bind (.mapM readOnly_journalId _) fun ids => ?_
  refine .ite (.bind (.throw _) fun _ => ?_) ?_
  all_goals exact .pure _

theorem readOnly_requirePendingAllow [Url] : requirePendingAllow.ReadOnly :=
  .bind readOnly_gateWithoutGit fun _ => .ite (.throw _) (.pure _)

variable [Jiff] [Blake3]

theorem readOnly_loadStage {store : Store} {batchId : BatchId} : (loadStage store batchId).ReadOnly := by
  unfold loadStage
  refine .bind readOnly_boundedRegular fun journalBytes => .bind (.ofExcept _) fun journal => ?_
  refine .ite (.bind (.throw _) fun _ => ?_) ?_
  all_goals
    refine .bind Directory.readOnly_openDir fun stage => .bind readOnly_validateStageRoot fun _ => ?_
    refine .bind readOnly_boundedRegular fun staged => .ite (.bind (.throw _) fun _ => ?_) ?_
    all_goals
      refine .bind readOnly_boundedRegular fun manifestBytes => .ite (.bind (.throw _) fun _ => ?_) ?_
      all_goals
        refine .bind (.ofExcept _) fun manifest => .ite (.bind (.throw _) fun _ => ?_) ?_
        all_goals
          refine .bind Directory.readOnly_openDir fun records => .bind readOnly_requireNames fun _ => ?_
          refine .bind (.mapM readOnly_loadRecord _) fun records => .ite (.bind (.throw _) fun _ => ?_) ?_
          all_goals exact .bind (.ofExcept _) fun _ => .pure _

end

end Wayjournal
