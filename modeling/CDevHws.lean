import CDevHws.FinalProject.Proofs.AgingLoopProofs
import CDevHws.FinalProject.Proofs.IsolationProofs
import CDevHws.FinalProject.Proofs.LoggerProofs
import CDevHws.FinalProject.Proofs.NetworkIsolationProofs
import CDevHws.FinalProject.Proofs.VsPortProofs
import CDevHws.Hw03.Proofs.SearchProofs
import CDevHws.Hw03.Proofs.ZipjpegProofs
import CDevHws.Hw04.Proofs.EncoderProofs
import CDevHws.Hw04.Proofs.RecodeProofs
import CDevHws.Hw06.Proofs.TokenizerProofs
import CDevHws.Hw06.Proofs.WcProofs
import CDevHws.Hw08.Proofs.CommentsProofs
import CDevHws.Hw08.Proofs.DotPathProofs
import CDevHws.Hw08.Proofs.ObjectRunProofs
import CDevHws.Hw08.Proofs.Utf8TextProofs
import CDevHws.Hw08.Proofs.WeatherProofs
import CDevHws.Hw09.Proofs.CProgProofs
import CDevHws.Hw15.Proofs.GtkTreeProofs
import CDevHws.Hw20.Proofs.DemonProofs
import CDevHws.Hw21.Proofs.AnnouncedProofs
import CDevHws.Hw21.Proofs.DetectionProofs
import CDevHws.Hw22.Proofs.BlankRowsProofs
import CDevHws.Hw22.Proofs.FieldsProofs
import CDevHws.Hw22.Proofs.LinesProofs
import CDevHws.Hw22.Proofs.MergeProofs
import CDevHws.Hw22.Proofs.ParseStringProofs
import CDevHws.Hw22.Proofs.ReportProofs
import CDevHws.Hw22.Proofs.WorkListProofs
import CDevHws.Hw22.Proofs.WorkerProofs
import CDevHws.Hw25.Proofs.TelefigProofs
import CDevHws.Hw27.Proofs.ArgsProofs
import CDevHws.Hw27.Proofs.BodyProofs
import CDevHws.Hw27.Proofs.BufferProofs
import CDevHws.Hw27.Proofs.ConnectionProofs
import CDevHws.Hw27.Proofs.FramingProofs
import CDevHws.Hw27.Proofs.SegmentationProofs
import CDevHws.Hw32.Proofs.DbstatProofs
import CDevHws.Hw33.Proofs.CubeProofs
import CDevHws.Hw35.Proofs.DrawProofs
import CDevHws.Hw35.Proofs.DropProofs
import CDevHws.Hw35.Proofs.KeyboardProofs
