import ImportAtlas.Build
import ImportAtlas.Graph.Architecture
import ImportAtlas.Graph.Cycle
import ImportAtlas.Options.Document
import ImportAtlas.Pattern
import ImportAtlas.Proofs.Architecture
import ImportAtlas.Proofs.BuildHistory
import ImportAtlas.Proofs.BackwardWeight
import ImportAtlas.Proofs.Cycle
import ImportAtlas.Proofs.Records
import ImportAtlas.Proofs.Refusal
import ImportAtlas.Proofs.Chunks
import ImportAtlas.Proofs.Distillation
import ImportAtlas.Proofs.Assembly
import ImportAtlas.Proofs.Reach
import ImportAtlas.Proofs.Contraction
import ImportAtlas.Proofs.CacheRecall
import ImportAtlas.Proofs.Squashing
import ImportAtlas.Proofs.SquashOrder
import ImportAtlas.Proofs.LeastChain
import ImportAtlas.Proofs.ReportedRoutes
import ImportAtlas.Proofs.SourceNames
import ImportAtlas.Proofs.PythonBuild
import ImportAtlas.Proofs.External
import ImportAtlas.Proofs.PackageOrder
import ImportAtlas.Proofs.StarImports
import ImportAtlas.Proofs.Pattern
import ImportAtlas.Proofs.PackageFiles
import ImportAtlas.Proofs.TypeChecking
import ImportAtlas.Proofs.RelativeImports
import ImportAtlas.Proofs.Conservation
import ImportAtlas.Proofs.ChainsOnce
import ImportAtlas.Proofs.NameViews
