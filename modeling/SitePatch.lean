import SitePatch.Text
import SitePatch.Text.Utf8
import SitePatch.Text.Word
import SitePatch.Names
import SitePatch.Condition
import SitePatch.Pattern
import SitePatch.Shape
import SitePatch.Site
import SitePatch.Luau
import SitePatch.Xxh3
import SitePatch.FileError
import SitePatch.Edit
import SitePatch.PatchError
import SitePatch.Plan
import SitePatch.Registry
import SitePatch.Path
import SitePatch.FileTree
import SitePatch.FileTree.Build
import SitePatch.FileTree.Contents
import SitePatch.FileTree.Edit
import SitePatch.Root
import SitePatch.Run
import SitePatch.Toml.Value
import SitePatch.Toml.Scalar
import SitePatch.Toml.Reader
import SitePatch.Toml.Document
import SitePatch.Config
import SitePatch.Settings
import SitePatch.Config.File
import SitePatch.LineDiff
import SitePatch.Printed
import SitePatch.CommandLine.Arguments
import SitePatch.CommandLine.Report
import SitePatch.CommandLine.Session
import SitePatch.Main
import SitePatch.Proofs.Pattern
import SitePatch.Proofs.Opening
import SitePatch.Proofs.Condition
import SitePatch.Proofs.Shape
import SitePatch.Proofs.Patch
import SitePatch.Proofs.Luau
import SitePatch.Proofs.Reading
import SitePatch.Proofs.Meaning
import SitePatch.Proofs.Crossing
import SitePatch.Proofs.Split
import SitePatch.Proofs.FileTree
import SitePatch.Proofs.Rerun
import SitePatch.Proofs.Way
import SitePatch.Proofs.Again
import SitePatch.Proofs.Paper
import SitePatch.Proofs.Effect
import SitePatch.Proofs.Agreement
import SitePatch.Proofs.Distinct
import SitePatch.Proofs.Confined
import SitePatch.Proofs.Resume
import SitePatch.Proofs.Presence
import SitePatch.Proofs.Base
import SitePatch.Proofs.Order
import SitePatch.Proofs.Verdict
import SitePatch.Proofs.Checked
import SitePatch.Proofs.Layout
import SitePatch.Proofs.Insertion
import SitePatch.Proofs.Counted
import SitePatch.Proofs.Planned
import SitePatch.Proofs.Atomic
import SitePatch.Proofs.Spelling
import SitePatch.Proofs.Locate
import SitePatch.Proofs.Splice
import SitePatch.Proofs.Names
import SitePatch.Proofs.Csv
import SitePatch.Proofs.Sources
import SitePatch.Proofs.Quoted
import SitePatch.Proofs.ReadBack
